import SocialGaming.Visibility

/-!
# The scope of a loop

A loop is driven from outside: the client enters the loop node, runs the body, leaves the scope,
and does this again as long as the loop's scope is still on the stack. The loop's state is in three
places: the storage of the list variable, from which `updateLoop` takes the front element; the
`exiting` flag of the loop's scope, which `updateLoop` sets when it has taken the last one; and the
stack, on which the loop's scope stays until `exitScope` finds the flag set.

This module says what each of the three calls does to the three places.

## Main definitions

* `Body` — a run of a loop's body, from the loop's scope in front to the loop's scope in front
* `InLoop` — the loop's scope is in front, with a flag and a rest of the list

## Main results

* `Body.frame` — a body leaves the stack as it found it
* `InLoop.enterScope_cons`, `InLoop.enterScope_nil` — going on with a loop
* `InLoop.exitScope_again`, `InLoop.exitScope_done` — staying in a loop and leaving it
-/

namespace SocialGaming

open Relation (ReflTransGen)
open ScopeStack (doms)

variable {ι : Type}

/-! ### What taking an element leaves alone -/

theorem SameScopes.modifyHead_setExiting {scope : Scope ι} {a rest : List (Scope ι)}
    (h : SameScopes a (scope :: rest)) (b : Bool) :
    SameScopes (a.modifyHead (Scope.setExiting b)) (scope.setExiting b :: rest) := by
  rcases a with _ | ⟨x, xs⟩
  · exact absurd h.length_eq (by simp)
  · obtain ⟨⟨hpar, htimer, hctrl⟩, hrest⟩ := sameScopes_cons.mp h
    exact sameScopes_cons.mpr ⟨⟨hpar, htimer, by simp [Scope.setExiting, hctrl]⟩, hrest⟩

theorem Env.sameScopes_takeElement {s : Env ι} {scope : Scope ι} {rest : List (Scope ι)}
    (h : SameScopes s.scopes (scope :: rest)) (loopVar : String) (range : CellAddr)
    (v : VarType) (l : List VarPtr) :
    SameScopes (s.takeElement loopVar range v l).scopes
      (scope.setExiting (l.length == 0) :: rest) :=
  ((s.sameScopes_assign loopVar (.value v)).trans h).modifyHead_setExiting _

/-- The list has lost its front. -/
theorem Env.cell_takeElement {s : Env ι} {range : CellAddr} {l₀ : List VarPtr}
    (h : s.heap.cell range = .list l₀) (loopVar : String) (v : VarType) (l : List VarPtr) :
    (s.takeElement loopVar range v l).heap.cell range = .list l := by
  have hlist := (s.extends_assign loopVar (.value v)).cell_eq_list h
  exact Heap.cell_write_self (Heap.lt_length_of_cell_eq_list hlist) _

/-- The loop variable is bound to the element. Its storage is new, so it is not the list's. -/
theorem Env.getVariable_takeElement {s : Env ι} (hs : s.scopes ≠ []) {range : CellAddr}
    {l₀ : List VarPtr} (h : s.heap.cell range = .list l₀) (loopVar : String) (v : VarType)
    (l : List VarPtr) :
    ∃ q, (s.takeElement loopVar range v l).getVariable loopVar = some q ∧
      (s.takeElement loopVar range v l).heap.value q = v := by
  have hq : (s.takeElement loopVar range v l).getVariable loopVar
      = some (s.heap.makeVariable v).1 := by
    rw [Env.getVariable_eq_lookup, Env.bindings_takeElement, ← Env.getVariable_eq_lookup,
      Env.getVariable_assign_self hs]
    rfl
  refine ⟨_, hq, ?_⟩
  have hlt : range < s.heap.cells.length := Heap.lt_length_of_cell_eq_list h
  have hheap : (s.takeElement loopVar range v l).heap
      = (s.heap.makeVariable v).2.write range (.list l) := by
    rw [Env.takeElement, Env.heap_assign hs]
    rfl
  have hnew : (s.heap.makeVariable v).2.storage (s.heap.makeVariable v).1
      = s.heap.cells.length := s.heap.storage_makeVariable v
  rw [hheap, Heap.value, Heap.storage_write, Heap.cell_write_of_ne (hnew ▸ hlt.ne')]
  exact s.heap.value_makeVariable v

/-! ### Bodies -/

/-- The calls a loop's body makes: the loop's scope has depth `d`, and the body leaves only scopes
it has entered. -/
def Op.InBody (node : ι) (d : ℕ) (s : Env ι) : Op ι → Prop
  | .setVariable _ _ => True
  | .enterScopeTimed _ _ => True
  | .enterScope m => m ≠ some node
  | .exitScope _ => d < s.depth
  | .updateTimers => False

section Bodies

variable [DecidableEq ι] (nodes : ι → RuleNode ι)

/-- One step of a body: a call, or a change of values by the client. -/
inductive BodyStep (node : ι) (d : ℕ) : Env ι → Env ι → Prop
  | op (o : Op ι) (now : ℤ) {s s' : Env ι} (ho : o.InBody node d s)
      (h : Prog.after? ((o.call nodes now).run s) = some s') : BodyStep node d s s'
  | client {s : Env ι} {heap : Heap} (h : s.heap.Evolves heap) : BodyStep node d s { s with heap }

/-- A body: it starts with the loop's scope in front, and ends at the depth it started at. -/
structure Body (node : ι) (t u : Env ι) : Prop where
  run : ReflTransGen (BodyStep nodes node t.depth) t u
  depth : u.depth = t.depth

variable {nodes}

theorem BodyStep.step {node : ι} {d : ℕ} {s s' : Env ι} (h : BodyStep nodes node d s s') :
    Step nodes s s' := by
  rcases h with ⟨o, now, -, h⟩ | h
  · exact Step.op o now h
  · exact Step.client h

end Bodies

/-- The scopes `base` are at the bottom of the stack, whatever they bind. -/
def Env.Over (base : List (Scope ι)) (s : Env ι) : Prop :=
  ∃ top bottom, s.scopes = top ++ bottom ∧ SameScopes bottom base

namespace Env.Over

variable {base : List (Scope ι)} {s s' : Env ι}

theorem length_le (h : s.Over base) : base.length ≤ s.depth := by
  obtain ⟨top, bottom, hs, hbase⟩ := h
  have := hbase.length_eq
  simp [Env.depth, hs]
  omega

theorem of_sameScopes (h : s.Over base) (hs : SameScopes s'.scopes s.scopes) : s'.Over base := by
  obtain ⟨top, bottom, hb, hbase⟩ := h
  rw [hb, SameScopes, List.map_append] at hs
  obtain ⟨top', bottom', hb', -, hbottom⟩ := List.map_eq_append_iff.mp hs
  exact ⟨top', bottom', hb', Eq.trans hbottom hbase⟩

theorem push (h : s.Over base) (scope : Scope ι) : (s.push scope).Over base := by
  obtain ⟨top, bottom, hb, hbase⟩ := h
  exact ⟨scope :: top, bottom, by rw [Env.push, hb, List.cons_append], hbase⟩

/-- A stack that is deeper than `base` has `base` at the bottom of its tail. -/
theorem exists_cons (h : s.Over base) (hlt : base.length < s.depth) :
    ∃ scope rest, s.scopes = scope :: rest ∧ ({ s with scopes := rest } : Env ι).Over base := by
  obtain ⟨_ | ⟨scope, top⟩, bottom, hb, hbase⟩ := h
  · have := hbase.length_eq
    rw [Env.depth, hb, List.nil_append] at hlt
    omega
  · exact ⟨scope, top ++ bottom, hb, top, bottom, rfl, hbase⟩

/-- Exchanging the front scope for another. -/
theorem cons {scope : Scope ι} {rest : List (Scope ι)}
    (h : ({ s with scopes := rest } : Env ι).Over base) (hs : s'.scopes = scope :: rest) :
    s'.Over base := by
  obtain ⟨top, bottom, hb, hbase⟩ := h
  exact ⟨scope :: top, bottom, by rw [hs, List.cons_append]; exact congrArg _ hb, hbase⟩

theorem sameScopes (h : s.Over base) (hd : s.depth = base.length) : SameScopes s.scopes base := by
  obtain ⟨top, bottom, hb, hbase⟩ := h
  have hnil : top = [] := by
    have := hbase.length_eq
    rw [Env.depth, hb, List.length_append] at hd
    exact List.length_eq_zero_iff.mp (by omega)
  rw [hb, hnil]
  exact hbase

end Env.Over

/-- Whatever goes on in front of `base` leaves `base` at the bottom. -/
def Env.KeepsOver (base : List (Scope ι)) (s s' : Env ι) : Prop :=
  s.Over base → base.length < s.depth → s'.Over base

instance (base : List (Scope ι)) : Std.Refl (Env.KeepsOver base) := ⟨fun _ h _ => h⟩

section Bodies

variable {nodes : ι → RuleNode ι} {base : List (Scope ι)}

theorem updateLoop_keepsOver (ctrl : ControlFlow ι) (s : Env ι) :
    Prog.Respects (Env.KeepsOver base) (updateLoop nodes ctrl) s := by
  refine updateLoop_respects nodes fun range p rest _ _ hover hlt => ?_
  obtain ⟨scope, below, hs, hbelow⟩ := hover.exists_cons hlt
  have hsame : SameScopes s.scopes (scope :: below) := by rw [hs]; exact SameScopes.refl _
  have htake := Env.sameScopes_takeElement hsame ctrl.loopVarName range (s.heap.value p) rest
  have hfront : ({ s with scopes := scope.setExiting (rest.length == 0) :: below } : Env ι).Over
      base := hbelow.cons rfl
  exact hfront.of_sameScopes htake

theorem exitScope_over {s s' : Env ι} (hover : s.Over base) (hlt : base.length < s.depth)
    {force : Bool} {now : ℤ} (h : Prog.after? ((exitScope nodes force now).run s) = some s') :
    s'.Over base := by
  rcases after_exitScope nodes h with ⟨-, rfl⟩ | ⟨scope, rest, hs, scopes', rfl, hcase⟩
  · exact hover
  obtain ⟨_, _, hs', hbelow⟩ := hover.exists_cons hlt
  obtain ⟨rfl, rfl⟩ := List.cons.inj (hs.symm.trans hs')
  rcases hcase with ⟨-, rfl⟩ | ⟨ctrl, -, ⟨-, -, rfl⟩ | ⟨-, -, rfl⟩⟩
  · exact hbelow.cons rfl
  · exact hbelow.cons rfl
  · exact hbelow

variable [DecidableEq ι]

/-- Entering another node than the one `base` has in front leaves `base` alone: the loop flag it
changes is that of a scope above. -/
theorem enterScope_over {s s' : Env ι} {node : ι} {front : Scope ι} {ctrl : ControlFlow ι}
    {rest : List (Scope ι)} (hbase : base = front :: rest) (hc : front.ctrlFlow = some ctrl)
    (hn : ctrl.node = some node) (hover : s.Over base) {m : Option ι} (hm : m ≠ some node)
    (h : Prog.after? ((enterScope nodes m).run s) = some s') : s'.Over base := by
  rcases enterScope_cases nodes m s with ⟨ctrl', hfront, hm', hr⟩ | ⟨-, hr⟩
  · -- the front scope belongs to `m`, so it is not the front of `base`
    refine updateLoop_keepsOver ctrl' s s' (hr ▸ h) hover
      (lt_of_le_of_ne hover.length_le fun hlen => ?_)
    have hsame := hover.sameScopes hlen.symm
    rcases hs : s.scopes with _ | ⟨scope, below⟩
    · rw [Env.frontCtrlFlow, hs] at hfront
      cases hfront
    · rw [hs, hbase] at hsame
      have hscope : scope.ctrlFlow = some ctrl := ((sameScopes_cons.mp hsame).1.2.2).trans hc
      have hctrl : scope.ctrlFlow = some ctrl' := by simpa [Env.frontCtrlFlow, hs] using hfront
      rw [hscope, Option.some_inj] at hctrl
      exact hm (by rw [← hm', ← hctrl, hn])
  rw [hr] at h
  rcases enterNew_cases nodes m s with ⟨f, hr⟩ | ⟨scope, ctrl', next, -, -, -, hr | hr⟩
  · have hs' : s = s' := Prog.respects_error hr s' h
    exact hs' ▸ hover
  · rw [hr, Prog.after?_ok, Option.some_inj] at h
    exact h ▸ hover.push scope
  · have hlt : base.length < (s.push scope).depth := by
      have := hover.length_le
      simp only [Env.push, Env.depth, List.length_cons] at this ⊢
      omega
    exact updateLoop_keepsOver ctrl' _ s' (hr ▸ h) (hover.push scope) hlt

omit [DecidableEq ι] in
theorem enterScopeTimed_over {s s' : Env ι} (hover : s.Over base) {m : Option ι}
    {timer : Timer ι} {now : ℤ}
    (h : Prog.after? ((enterScopeTimed nodes m timer now).run s) = some s') : s'.Over base := by
  rcases hscope : Scope.new nodes m s with f | scope
  · have hs' : s = s' := Prog.respects_error (enterScopeTimed_error nodes hscope) s' h
    exact hs' ▸ hover
  rw [enterScopeTimed_run nodes hscope, Prog.after?_ok, Option.some_inj] at h
  subst h
  by_cases hf : timer.hasFlag
  · rw [if_pos hf]
    exact (hover.of_sameScopes (s.sameScopes_assign timer.flagName _)).push _
  · rw [if_neg hf]
    exact hover.push _

/-- One step of a body leaves the loop's scope and everything below it in place. -/
theorem BodyStep.over {node : ι} {front : Scope ι} {ctrl : ControlFlow ι} {rest : List (Scope ι)}
    (hbase : base = front :: rest) (hc : front.ctrlFlow = some ctrl) (hn : ctrl.node = some node)
    {s s' : Env ι} (h : BodyStep nodes node base.length s s') (hover : s.Over base) :
    s'.Over base := by
  rcases h with ⟨o, now, ho, h⟩ | h
  · rcases o with ⟨name, arg⟩ | ⟨m, timer⟩ | m | force | _
    · rw [Op.call, setVariable_run, Prog.after?_ok, Option.some_inj] at h
      exact hover.of_sameScopes (h ▸ s.sameScopes_assign name arg)
    · exact enterScopeTimed_over hover h
    · rw [Op.call, Prog.after?_run_map] at h
      exact enterScope_over hbase hc hn hover ho h
    · rw [Op.call, Prog.after?_run_map] at h
      exact exitScope_over hover ho h
    · exact ho.elim
  · exact hover

/-- A body keeps the loop's scope and everything below it in place throughout, so it is a run that
stays above the scopes below the loop's. -/
theorem over_of_run {node : ι} {t u : Env ι} {front : Scope ι} {ctrl : ControlFlow ι}
    {rest : List (Scope ι)} (ht : t.scopes = front :: rest) (hc : front.ctrlFlow = some ctrl)
    (hn : ctrl.node = some node) (h : ReflTransGen (BodyStep nodes node t.depth) t u) :
    u.Over t.scopes ∧ ReflTransGen (fun a b => Step nodes a b ∧ rest.length < b.depth) t u := by
  induction h with
  | refl => exact ⟨⟨[], t.scopes, rfl, SameScopes.refl _⟩, ReflTransGen.refl⟩
  | tail _ hstep ih =>
    have hover := BodyStep.over ht hc hn hstep ih.1
    have hlt := hover.length_le
    rw [ht, List.length_cons] at hlt
    exact ⟨hover, ih.2.tail ⟨hstep.step, hlt⟩⟩

/-- **A body leaves the stack as it found it**: the scopes are the same, and those below the loop's
bind the names they did. -/
theorem Body.frame {node : ι} {t u : Env ι} {front : Scope ι} {ctrl : ControlFlow ι}
    {rest : List (Scope ι)} (h : Body nodes node t u)
    (ht : t.scopes = front :: rest) (hc : front.ctrlFlow = some ctrl)
    (hn : ctrl.node = some node) :
    SameScopes u.scopes t.scopes ∧
      (doms u.bindings).rtake rest.length = (doms t.bindings).rtake rest.length := by
  obtain ⟨hover, hrun⟩ := over_of_run ht hc hn h.run
  have hlt : rest.length < t.depth := by simp [Env.depth, ht]
  exact ⟨hover.sameScopes h.depth, (rtake_doms_of_run hlt hrun).2⟩

end Bodies

/-- Nothing is waited for when there is no timer. -/
theorem checkTimer_of_getTimer {s : Env ι} {scope : Scope ι} {timerId : ℤ}
    (hid : scope.timerId = timerId) (hnone : s.getTimer timerId = none) (now : ℤ) :
    (checkTimer s scope now).1 = false := by
  rw [Env.getTimer] at hnone
  simp [checkTimer, hid, hnone, Scope.waitingInputs]

/-! ### Where a loop is -/

/-- The scope `front` of a loop is in front of `below`, with the flag `exiting`, and `ws` is left of
the list. -/
structure InLoop (front : Scope ι) (below : List (Scope ι)) (range : CellAddr) (exiting : Bool)
    (ws : List VarAddr) (t : Env ι) : Prop where
  scopes : SameScopes t.scopes (front.setExiting exiting :: below)
  list : t.heap.cell range = .list (ws.map some)

namespace InLoop

variable {nodes : ι → RuleNode ι} {front : Scope ι} {below : List (Scope ι)} {range : CellAddr}
  {exiting : Bool} {ws : List VarAddr} {w : VarAddr} {t u : Env ι} {ctrl : ControlFlow ι}
  {node : ι} {child : Option ι}

theorem depth_eq (h : InLoop front below range exiting ws t) : t.depth = below.length + 1 :=
  h.scopes.length_eq

theorem exists_cons (h : InLoop front below range exiting ws t) (hc : front.ctrlFlow = some ctrl) :
    ∃ scope rest, t.scopes = scope :: rest ∧ scope.timerId = front.timerId ∧
      scope.ctrlFlow = some { ctrl with exiting } ∧ SameScopes rest below := by
  have hs := h.scopes
  rcases ht : t.scopes with _ | ⟨scope, rest⟩
  · rw [ht] at hs
    exact absurd hs.length_eq (by simp)
  · rw [ht] at hs
    obtain ⟨⟨-, htimer, hctrl⟩, hrest⟩ := sameScopes_cons.mp hs
    exact ⟨scope, rest, rfl, htimer, by rw [hctrl, Scope.setExiting, hc]; rfl, hrest⟩

theorem frontCtrlFlow (h : InLoop front below range exiting ws t)
    (hc : front.ctrlFlow = some ctrl) : t.frontCtrlFlow = some { ctrl with exiting } := by
  obtain ⟨scope, rest, ht, -, hctrl, -⟩ := h.exists_cons hc
  rw [Env.frontCtrlFlow, ht]
  exact hctrl

theorem takeElement (h : InLoop front below range exiting (w :: ws) t) (loopVar : String)
    (v : VarType) :
    InLoop front below range ws.isEmpty ws (t.takeElement loopVar range v (ws.map some)) := by
  refine ⟨?_, Env.cell_takeElement h.list _ _ _⟩
  have hflag : ((ws.map some).length == 0) = ws.isEmpty := by cases ws <;> rfl
  have hscopes := Env.sameScopes_takeElement h.scopes loopVar range v (ws.map some)
  rw [hflag] at hscopes
  exact hscopes.trans (sameScopes_cons.mpr
    ⟨⟨rfl, rfl, by simp [Scope.setExiting, Function.comp_def]⟩, SameScopes.refl _⟩)

section Calls

variable (hc : front.ctrlFlow = some ctrl) (hn : ctrl.node = some node)
  (hr : ctrl.range = some range)

include hr in
/-- There is an element left: it is bound to the loop variable. -/
theorem updateLoop_cons (hnext : ctrl.getNext nodes = .ok child)
    (h : InLoop front below range exiting (w :: ws) t) :
    (updateLoop nodes { ctrl with exiting }).run t
      = .ok child (t.takeElement ctrl.loopVarName range (t.heap.value w) (ws.map some)) := by
  have hrange : ({ ctrl with exiting } : ControlFlow ι).range = some range := hr
  rw [SocialGaming.updateLoop_cons nodes hrange h.list]
  exact congrArg (fun x => (Prog.ofExcept x : Call (Env ι) _).run _) hnext

include hr in
/-- There is none left: nothing changes, and the flag is what it was. -/
theorem updateLoop_nil (hnext : ctrl.getNext nodes = .ok child)
    (h : InLoop front below range exiting [] t) :
    (updateLoop nodes { ctrl with exiting }).run t = .ok child t := by
  have hrange : ({ ctrl with exiting } : ControlFlow ι).range = some range := hr
  rw [SocialGaming.updateLoop_nil nodes hrange h.list]
  exact congrArg (fun x => (Prog.ofExcept x : Call (Env ι) _).run _) hnext

variable (nodes) in
include hc hn in
/-- A loop that is not done: its scope is emptied and stays. -/
theorem exitScope_again (h : InLoop front below range false ws t) (now : ℤ) :
    ∃ blk t', (exitScope nodes false now).run t = .ok (blk, some node) t' ∧
      InLoop front below range false ws t' ∧
      (doms t'.bindings).rtake below.length = (doms t.bindings).rtake below.length ∧
      (front.timerId = -1 → t.getTimer (-1) = none → blk = false) := by
  obtain ⟨scope, rest, ht, htimer, hctrl, hrest⟩ := h.exists_cons hc
  rw [← hn]
  refine ⟨_, _, SocialGaming.exitScope_again nodes ht hctrl rfl now, ⟨?_, h.list⟩, ?_, ?_⟩
  · have hscopes := h.scopes
    rw [ht] at hscopes
    exact sameScopes_cons.mpr (sameScopes_cons.mp hscopes)
  · have hlen : rest.length = below.length := hrest.length_eq
    rw [← hlen]
    simp [Env.bindings, ht, List.rtake, ScopeStack.doms]
  · intro hfront hnone
    exact checkTimer_of_getTimer (htimer.trans hfront) hnone now

variable (nodes) in
include hc hn in
/-- A loop that is done: its scope is left. -/
theorem exitScope_done (h : InLoop front below range true ws t) (now : ℤ) :
    ∃ blk t', (exitScope nodes false now).run t = .ok (blk, (nodes node).nextNode) t' ∧
      SameScopes t'.scopes below ∧ t'.heap = t.heap ∧
      doms t'.bindings = (doms t.bindings).rtake below.length ∧
      (front.timerId = -1 → t.getTimer (-1) = none → blk = false) := by
  obtain ⟨scope, rest, ht, htimer, hctrl, hrest⟩ := h.exists_cons hc
  refine ⟨_, _, exitScope_pop nodes ht hctrl (Or.inr rfl) hn now, hrest, rfl, ?_, ?_⟩
  · have hlen : rest.length = below.length := hrest.length_eq
    rw [← hlen]
    simp [Env.bindings, ht, List.rtake, ScopeStack.doms]
  · intro hfront hnone
    exact checkTimer_of_getTimer (htimer.trans hfront) hnone now

variable [DecidableEq ι]

include hc hn hr in
/-- The next round: the front of the list is bound to the loop variable. -/
theorem enterScope_cons (hnext : ctrl.getNext nodes = .ok child)
    (h : InLoop front below range exiting (w :: ws) t) :
    (enterScope nodes (some node)).run t
      = .ok child (t.takeElement ctrl.loopVarName range (t.heap.value w) (ws.map some)) := by
  rw [enterScope_again nodes (h.frontCtrlFlow hc) hn]
  exact h.updateLoop_cons hr hnext

include hc hn hr in
/-- A round without an element. -/
theorem enterScope_nil (hnext : ctrl.getNext nodes = .ok child)
    (h : InLoop front below range exiting [] t) :
    (enterScope nodes (some node)).run t = .ok child t := by
  rw [enterScope_again nodes (h.frontCtrlFlow hc) hn]
  exact h.updateLoop_nil hr hnext

include hc hn in
/-- A body does not change where the loop is, but for what it does to the list. -/
theorem body {ws' : List VarAddr} (h : InLoop front below range exiting ws t)
    (hbody : Body nodes node t u) (hlist : u.heap.cell range = .list (ws'.map some)) :
    InLoop front below range exiting ws' u ∧
      (doms u.bindings).rtake below.length = (doms t.bindings).rtake below.length := by
  obtain ⟨scope, rest, ht, -, hctrl, hrest⟩ := h.exists_cons hc
  obtain ⟨hsame, hnames⟩ := hbody.frame ht hctrl hn
  rw [hrest.length_eq] at hnames
  exact ⟨⟨hsame.trans h.scopes, hlist⟩, hnames⟩

end Calls

end InLoop

end SocialGaming
