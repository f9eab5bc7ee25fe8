import SocialGaming.SoleOwners

/-!
# Runs of `Variable::set`

The overloads of `Variable::set` are called on any `Variable`s, and between the calls `Variable`s
and `shared_ptr`s are made, copied and destroyed. A `Variable` keeps its type as long as no call
makes a second owner.

## Main definitions

* `StoreEvent`, `StoreStep` — the calls, and what else is done
* `StoreEvent.NoSecondOwner` — a call meets the condition

## Main results

* `StoreStep.sound` — one step
* `SetCall.type_kept` — a `Variable` keeps its type in every run
-/

namespace SocialGaming

/-- What a `Variable` is made of: a value, or a `Variable` of which it is a copy. -/
inductive VariableInit where
  | value (val : VarType)
  | copy (q : VarAddr)

/-- The `Variable` is made. -/
def VariableInit.make (init : VariableInit) (h : Heap) : VarAddr × Heap :=
  match init with
  | value val => h.makeVariable val
  | copy q => h.copyVariable (h.storage q)

/-- Something that is done with the store. -/
inductive StoreEvent where
  /-- A call of an overload of `Variable::set` on `p`. -/
  | call (p : VarAddr) (call : SetCall)
  /-- A `Variable` is made that no `shared_ptr` points to, with or without `new`. -/
  | construct (init : VariableInit) (byNew : Bool)
  /-- `std::make_shared<Variable>` -/
  | makeShared (init : VariableInit)
  /-- A `shared_ptr` is copied. -/
  | hold (b : BlockAddr)
  /-- A `shared_ptr` that is not in the store is destroyed. -/
  | drop (b : BlockAddr)
  /-- A `Variable` is destroyed that no `shared_ptr` points to. -/
  | destroy (p : VarAddr)

namespace SharedStore

/-- A `Variable` of its own. -/
def construct (init : VariableInit) (byNew : Bool) (s : SharedStore) : SharedStore :=
  let (p, heap) := init.make s.heap
  { s with heap, live := p :: s.live, newed := if byNew then p :: s.newed else s.newed }

/-- A `Variable` with a `shared_ptr` that points to it. -/
def makeShared (init : VariableInit) (s : SharedStore) : SharedStore :=
  let (b, s') := s.withVariable (init.make s.heap)
  { s' with held := b :: s'.held }

end SharedStore

/-- What the `Variable` is made of is there. -/
def VariableInit.Passed (init : VariableInit) (s : SharedStore) : Prop :=
  match init with
  | value val => ∀ b ∈ val.pointers, b ∈ s.held
  | copy q => q ∈ s.live

/-- A step. The caller of a call that throws may catch. -/
inductive StoreStep : SharedStore → StoreEvent → SharedStore → Prop
  | call {s s' : SharedStore} {p : VarAddr} {call : SetCall} (hcall : call.Passed p s)
      (h : Prog.after? ((call.run p).run s) = some s') : StoreStep s (.call p call) s'
  | construct {s : SharedStore} {init : VariableInit} (byNew : Bool) (hinit : init.Passed s) :
      StoreStep s (.construct init byNew) (s.construct init byNew)
  | makeShared {s : SharedStore} {init : VariableInit} (hinit : init.Passed s) :
      StoreStep s (.makeShared init) (s.makeShared init)
  | hold {s : SharedStore} {b : BlockAddr} (hb : s.InUse b) :
      StoreStep s (.hold b) { s with held := b :: s.held }
  | drop {s s' : SharedStore} {b : BlockAddr} (hb : b ∈ s.held)
      (h : (SharedStore.release [b]).run { s with held := s.held.erase b } = .ok () s') :
      StoreStep s (.drop b) s'
  | destroy {s s' : SharedStore} {p : VarAddr} (hp : p ∈ s.live)
      (hunowned : ∀ b, s.InUse b → s.object b ≠ p)
      (h : (SharedStore.release (s.heap.value p).pointers).run
        { s with live := s.live.erase p } = .ok () s') : StoreStep s (.destroy p) s'

/-- **The condition.** A call makes no second owner. -/
def StoreEvent.NoSecondOwner (e : StoreEvent) (s : SharedStore) : Prop :=
  match e with
  | call p setCall => setCall.NoSecondOwner p s
  | _ => True

namespace SharedStore

variable {s s' : SharedStore} {given : List BlockAddr}

open VariableInit (value copy)

/-- A new `Variable` in the store, and what it holds. -/
theorem Sound.exists_holds_make (hs : s.Sound) {init : VariableInit} (hinit : init.Passed s) :
    s.heap.Extends (init.make s.heap).2 ∧ (init.make s.heap).1 = s.heap.vars.length ∧
      ∃ v, (init.make s.heap).2.Holds s.heap.vars.length v ∧ ∀ b ∈ v.pointers, s.InUse b := by
  cases init with
  | value val =>
    exact ⟨s.heap.extends_makeVariable val, rfl, val, s.heap.holds_makeVariable val,
      fun b hb => inUse_of_held (hinit b hb)⟩
  | copy q =>
    obtain ⟨v, hv⟩ := hs.holds q hinit
    exact ⟨s.heap.extends_copyVariable _, rfl, v, hv.copyVariable,
      fun b hb => inUse_of_pointers hinit (hv.value_eq.symm ▸ hb)⟩

/-- Who keeps what, and what is there, becomes less, or passes from one to another. -/
theorem SoundWith.of_inUse (h : s.SoundWith given) {held given' : List BlockAddr}
    {live : List VarAddr} (hnodup : live.Nodup) (hlive : ∀ q ∈ live, q ∈ s.live)
    (hused : ∀ b, s.sharing.InUse held given' live b → s.sharing.InUse s.held given s.live b)
    (hthere : ∀ b, s.sharing.InUse held given' live b → s.object b ∈ live) :
    SoundWith { s with held, live } given' where
  nodup := hnodup
  holds q hq := h.holds q (hlive q hq)
  bound b hb := h.bound b (hused b hb)
  sole := ⟨hthere, fun b hb => h.sole.deletes b (hused b hb),
    fun b b' hb hb' => h.sole.once b b' (hused b hb) (hused b' hb')⟩

theorem Sound.hold (hs : s.Sound) {b : BlockAddr} (hb : s.InUse b) :
    Sound { s with held := b :: s.held } := by
  have hused : ∀ c, s.sharing.InUse (b :: s.held) [] s.live c → s.InUse c := by
    rintro c (hheld | hrest)
    · rcases List.mem_cons.mp hheld with rfl | hheld
      · exact hb
      · exact inUse_of_held hheld
    · exact Or.inr hrest
  exact hs.of_inUse hs.nodup (fun q hq => hq) hused fun c hc => hs.there (hused c hc)

theorem Sound.drop (hs : s.Sound) {b : BlockAddr} (hb : b ∈ s.held) :
    SoundWith { s with held := s.held.erase b } [b] := by
  have hused : ∀ c, s.sharing.InUse (s.held.erase b) [b] s.live c → s.InUse c := by
    rintro c (hheld | hgiven | hshare)
    · exact inUse_of_held (List.mem_of_mem_erase hheld)
    · exact inUse_of_held (List.mem_singleton.mp hgiven ▸ hb)
    · exact Or.inr (Or.inr hshare)
  exact hs.of_inUse hs.nodup (fun q hq => hq) hused fun c hc => hs.there (hused c hc)

theorem Sound.destroy (hs : s.Sound) {p : VarAddr} (hp : p ∈ s.live)
    (hunowned : ∀ b, s.InUse b → s.object b ≠ p) :
    SoundWith { s with live := s.live.erase p } (s.heap.value p).pointers := by
  have hused : ∀ c, s.sharing.InUse s.held (s.heap.value p).pointers (s.live.erase p) c →
      s.InUse c := by
    rintro c (hheld | hgiven | ⟨q, hq, hshare⟩)
    · exact inUse_of_held hheld
    · exact inUse_of_pointers hp hgiven
    · exact inUse_of_pointers (List.mem_of_mem_erase hq) hshare
  exact hs.of_inUse (hs.nodup.erase p) (fun q => List.mem_of_mem_erase) hused fun c hc =>
    (List.mem_erase_of_ne (hunowned c (hused c hc))).mpr (hs.there (hused c hc))

theorem Sound.construct (hs : s.Sound) {init : VariableInit} (hinit : init.Passed s)
    (byNew : Bool) : (s.construct init byNew).Sound := by
  obtain ⟨hext, hnew, v, hv, hpointers⟩ := hs.exists_holds_make hinit
  have hadds : Adds s { s with
      heap := (init.make s.heap).2, live := (init.make s.heap).1 :: s.live } := by
    have hvariable := Adds.variable hs hext hv hpointers
    rw [hnew]
    exact ⟨hext, List.prefix_rfl, rfl, hvariable.live, hvariable.nodup, hvariable.holds,
      hvariable.shares, fun b hb => absurd hb.2 (hb.1 ▸ lt_irrefl _)⟩
  have hsound := (hadds.follows hs 0 (List.forall_mem_nil _)).sound hs
  exact ⟨hsound.nodup, hsound.holds, hsound.bound, hsound.sole⟩

theorem Sound.makeShared (hs : s.Sound) {init : VariableInit} (hinit : init.Passed s) :
    (s.makeShared init).Sound := by
  obtain ⟨hext, hnew, v, hv, hpointers⟩ := hs.exists_holds_make hinit
  have hadds : Adds s (s.withVariable (init.make s.heap)).2 := by
    have hmade : init.make s.heap = (s.heap.vars.length, (init.make s.heap).2) := by
      rw [← hnew]
    rw [hmade]
    exact Adds.variable hs hext hv hpointers
  have hsound := (hadds.follows hs 0
    (List.forall_mem_singleton.mpr (newBlock_withVariable s _))).sound hs
  have hused : ∀ c, (s.withVariable (init.make s.heap)).2.sharing.InUse
      (s.blocks.length :: s.held) [] (s.withVariable (init.make s.heap)).2.live c →
      (s.withVariable (init.make s.heap)).2.sharing.InUse
        s.held [s.blocks.length] (s.withVariable (init.make s.heap)).2.live c := by
    rintro c (hheld | hgiven | hshare)
    · rcases List.mem_cons.mp hheld with rfl | hheld
      · exact Or.inr (Or.inl List.mem_cons_self)
      · exact Or.inl hheld
    · exact absurd hgiven List.not_mem_nil
    · exact Or.inr (Or.inr hshare)
  exact hsound.of_inUse hsound.nodup (fun q hq => hq) hused fun c hc =>
    hsound.sole.present c (hused c hc)

end SharedStore

variable {s₀ s s' : SharedStore} {e : StoreEvent} {p : VarAddr} {v : VarType}
  {t : List (SharedStore × StoreEvent)}

/-- **One step.** No storage gets another type, and the store stays sound. -/
theorem StoreStep.sound (h : StoreStep s e s') (hs : s.Sound) (hown : e.NoSecondOwner s) :
    s'.Sound ∧ s.heap.Evolves s'.heap := by
  cases h with
  | call hcall h =>
    obtain ⟨u, hends⟩ := SetCall.ends hs hcall hown
    obtain rfl := Option.some.inj (hends.after_eq.symm.trans h)
    exact ⟨hends.sound, hends.evolves⟩
  | construct byNew hinit =>
    exact ⟨hs.construct hinit byNew, (hs.exists_holds_make hinit).1.evolves⟩
  | makeShared hinit => exact ⟨hs.makeShared hinit, (hs.exists_holds_make hinit).1.evolves⟩
  | hold hb => exact ⟨hs.hold hb, Heap.Evolves.refl _⟩
  | drop hb h =>
    obtain ⟨live, hrun, hsound, -⟩ := (hs.drop hb).release
    obtain ⟨-, rfl⟩ := EStateM.Result.ok.inj (hrun.symm.trans h)
    exact ⟨hsound, Heap.Evolves.refl _⟩
  | destroy hp hunowned h =>
    obtain ⟨live, hrun, hsound, -⟩ := (hs.destroy hp hunowned).release
    obtain ⟨-, rfl⟩ := EStateM.Result.ok.inj (hrun.symm.trans h)
    exact ⟨hsound, Heap.Evolves.refl _⟩

/-- A `Variable` in the store stays there, with its type. -/
theorem Heap.Holds.of_evolves {h h' : Heap} (hp : h.Holds p v) (hevolves : h.Evolves h') :
    ∃ w, h'.Holds p w ∧ w.index = v.index := by
  obtain ⟨w, hw⟩ := hp.stays hevolves.vars hevolves.cells
  refine ⟨w, hw, ?_⟩
  calc
    w.index = (h'.cell (h'.storage p)).index := by rw [← hw.value_eq]; rfl
    _ = (h'.cell (h.storage p)).index := by rw [hp.storage_eq hevolves.vars]
    _ = (h.cell (h.storage p)).index := hevolves.index _ hp.storage_lt
    _ = v.index := by rw [← hp.value_eq]; rfl

/-- **Every run.** -/
theorem Run.sound (hrun : Run StoreStep s₀ t s) (hs : s₀.Sound)
    (hown : ∀ x ∈ t, x.2.NoSecondOwner x.1) : s.Sound ∧ s₀.heap.Evolves s.heap := by
  refine hrun.invariant_of_forall (P := fun s => s.Sound ∧ s₀.heap.Evolves s.heap) hown
    ⟨hs, Heap.Evolves.refl _⟩ fun s e s' hstep hcond hinv => ?_
  obtain ⟨hsound, hevolves⟩ := hstep.sound hinv.1 hcond
  exact ⟨hsound, hinv.2.trans hevolves⟩

/-- **Types are kept.** After any calls, on this and on other `Variable`s, a `Variable` that is
still there has the type it had. Of the next call on it one can say: if it throws, the value is what
it was, and if it returns and has a key, only the entry under the key is another. -/
theorem SetCall.type_kept (hrun : Run StoreStep s₀ t s) (hs : s₀.Sound)
    (hown : ∀ x ∈ t, x.2.NoSecondOwner x.1) (hp : s₀.Has p v) (hlive : p ∈ s.live) :
    ∃ w, s.Has p w ∧ w.index = v.index ∧ ∀ call : SetCall, call.Passed p s →
      s.Kept (s.heap.storage p) p → call.NoSecondOwner p s → call.Effect p w s := by
  obtain ⟨hsound, hevolves⟩ := hrun.sound hs hown
  obtain ⟨w, hw, hindex⟩ := hp.holds.of_evolves hevolves
  refine ⟨w, hsound.has hlive hw, hindex, fun call hcall hkept hnext => ?_⟩
  obtain ⟨s', hends⟩ := ends hsound hcall hnext
  exact hends.effect hw hkept

/-! ### A list of two elements -/

theorem inUse_twoElementStore {b : BlockAddr} (hb : twoElementStore.InUse b) : b ∈ [0, 1, 2] :=
  SharedStore.mem_of_inUse (by decide) (by decide) hb

theorem sound_twoElementStore : twoElementStore.Sound where
  nodup := by decide
  holds := by
    have hall : ∀ q ∈ twoElementStore.live, twoElementStore.heap.vars[q]? = some q ∧
        twoElementStore.heap.cells[q]? = some (twoElementStore.heap.value q) := by decide
    exact fun q hq => ⟨_, q, hall q hq⟩
  bound b hb := by
    have hall : ∀ b ∈ [0, 1, 2], b < twoElementStore.blocks.length := by decide
    exact hall b (inUse_twoElementStore hb)
  sole := by
    have hpresent : ∀ b ∈ [0, 1, 2], twoElementStore.object b ∈ twoElementStore.live := by decide
    have hdeletes : ∀ b ∈ [0, 1, 2], (twoElementStore.block b).deletes := by decide
    have honce : ∀ b ∈ [0, 1, 2], ∀ b' ∈ [0, 1, 2],
        twoElementStore.object b = twoElementStore.object b' → b = b' := by decide
    exact ⟨fun b hb => hpresent b (inUse_twoElementStore hb),
      fun b hb => hdeletes b (inUse_twoElementStore hb),
      fun b b' hb hb' => honce b (inUse_twoElementStore hb) b' (inUse_twoElementStore hb')⟩

/-- A `Variable` that was made with `new` has become the second element. -/
def newElementStore : SharedStore where
  heap := { cells := [.list [some 1, some 3], .int 1, .int 2, .string "x"], vars := [0, 1, 2, 3] }
  blocks := [⟨0, true⟩, ⟨1, true⟩, ⟨2, true⟩, ⟨3, true⟩]
  held := [0]
  live := [3, 0, 1]
  newed := [3]

/-- A `Variable` made with `new` becomes the second element, the program copies the pointer to it,
and then a third element is written, which the list does not have. -/
theorem SetCall.type_kept_twoElements : ∃ s t, Run StoreStep twoElementStore t s ∧ t.length = 4 ∧
    ∃ w, s.Has 0 w ∧ w.index = 4 ∧ ∀ call : SetCall, call.Passed 0 s →
      s.Kept (s.heap.storage 0) 0 → call.NoSecondOwner 0 s → call.Effect 0 w s := by
  have hnew := StoreStep.construct (s := twoElementStore) true
    (show VariableInit.Passed (.value (.string "x")) _ from List.forall_mem_nil _)
  have hset : StoreStep (twoElementStore.construct (.value (.string "x")) true)
      (.call 0 (.keyedVariable (.int 1) 3)) newElementStore := by
    refine .call ⟨by decide, by decide, ?_⟩ rfl
    rintro _ ⟨⟩
    decide
  have hhold := StoreStep.hold (SharedStore.inUse_of_pointers (s := newElementStore) (q := 0)
    (b := 3) (by decide) (by decide))
  have hthrows : StoreStep { newElementStore with held := [3, 0] }
      (.call 0 (.keyed (.int 2) (.bool true))) {
        heap := (newElementStore.heap.makeVariable (.bool true)).2
        blocks := newElementStore.blocks ++ [⟨4, true⟩]
        held := [3, 0]
        live := [3, 0, 1]
        newed := [3] } := .call ⟨by decide, by decide, nofun⟩ rfl
  have hrun := (((Run.nil.snoc hnew).snoc hset).snoc hhold).snoc hthrows
  refine ⟨_, _, hrun, rfl, SetCall.type_kept hrun sound_twoElementStore ?_
    (p := 0) (v := .list [some 1, some 2]) ⟨by decide, ⟨0, rfl, rfl⟩, by decide⟩ (by decide)⟩
  refine List.forall_mem_cons.mpr ⟨trivial, List.forall_mem_cons.mpr ⟨?_,
    List.forall_mem_cons.mpr ⟨trivial, List.forall_mem_singleton.mpr ?_⟩⟩⟩
  · rintro _ _ ⟨⟩ -
    have hobject : ∀ b ∈ [0, 1, 2],
        (twoElementStore.construct (.value (.string "x")) true).object b ≠ 3 := by decide
    exact ⟨by decide, fun b hb =>
      hobject b (SharedStore.mem_of_inUse (by decide) (by decide) hb)⟩
  · rintro _ _ ⟨⟩

/-- **The second owner.** The first element is made the second one too, and then the first one is
overwritten: the second one is gone. -/
theorem SetCall.set_takes_other : ∃ s s',
    StoreStep twoElementStore (.call 0 (.keyedVariable (.int 1) 1)) s ∧
      StoreStep s (.call 0 (.keyed (.int 0) (.int 5))) s' ∧
      s.heap.Holds 0 (.list [some 1, some 3]) ∧ s'.heap.Holds 0 (.list [some 4, some 3]) ∧
      s.object 3 = 1 ∧ 1 ∈ s.live ∧ 1 ∉ s'.live ∧
      ¬ (keyed (.int 0) (.int 5)).Effect 0 (.list [some 1, some 3]) s := by
  refine ⟨{ heap := { cells := [.list [some 1, some 3], .int 1, .int 2], vars := [0, 1, 2] }
            blocks := [⟨0, true⟩, ⟨1, true⟩, ⟨2, true⟩, ⟨1, false⟩]
            held := [0]
            live := [0, 1] },
    { heap := { cells := [.list [some 4, some 3], .int 1, .int 2, .int 5], vars := [0, 1, 2, 3] }
      blocks := [⟨0, true⟩, ⟨1, true⟩, ⟨2, true⟩, ⟨1, false⟩, ⟨3, true⟩]
      held := [0]
      live := [3, 0] },
    .call ⟨by decide, by decide, ?_⟩ rfl, .call ⟨by decide, by decide, nofun⟩ rfl,
    ⟨0, rfl, rfl⟩, ⟨0, rfl, rfl⟩, rfl, by decide, by decide, fun heffect => ?_⟩
  · rintro _ ⟨⟩
    decide
  · obtain ⟨w, hw, -⟩ := heffect.returned _ rfl
    have hthere := hw.there
    rw [← hw.holds.value_eq] at hthere
    exact absurd (hthere 3 (by decide)) (by decide)

end SocialGaming
