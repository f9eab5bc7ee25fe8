import SocialGaming.GameEnd
import SocialGaming.TimerScopes
import Mathlib.Order.Bounds.Basic

/-!
# The outcome of a timer sweep

The timers are taken in the order of their ids, and the turn of each sets a flag, may take scopes
off the stack, and compares its scope with the last depth. The outcome does not depend on the order:
the stack has been taken down to the lowest scope of a stop timer, which is the one whose next node
is returned, and of what the scopes that are left bind only the flags have changed.

## Main definitions

* `SweepOutcome` — what a sweep comes to
* `Swept` — the state after the turns of some timers
* `LastExit` — the next node and the last depth after them

## Main results

* `Reachable.one_le_scopeid` — no timer belongs to the bottom scope
* `Swept.expireTimer` — one turn
* `updateTimers_outcome` — a sweep ends, with this outcome
-/

namespace SocialGaming

open Std (ExtTreeMap)
open ScopeStack (Frame)

variable {ι : Type}

/-! ### What a sweep comes to -/

/-- The flags of the timers. -/
def flagsOf (timers : List (Timer ι)) : Set String :=
  {x | ∃ timer ∈ timers, timer.hasFlag ∧ timer.flagName = x}

/-- A frame after the flags have been set: those it bound read true, and the other names are bound
to what they were bound to. -/
def FlagsSet (flags : Set String) (heap : Heap) (f f' : Frame String VarPtr) : Prop :=
  ∀ x, (x ∉ flags → f' x = f x) ∧ (x ∈ flags → (f x).isSome →
    ∃ q, f' x = some (some q) ∧ q < heap.vars.length ∧ heap.value q = .bool true)

/-- A timer in the table that stops a scope. -/
def Env.Stops (s : Env ι) (id : ℤ) (timer : Timer ι) : Prop :=
  s.getTimer id = some timer ∧ timer.type = .stop

/-- The outcome of a sweep of `s` that returned `next` in `s'`. -/
structure SweepOutcome (s : Env ι) (next : Option ι) (s' : Env ι) : Prop where
  /-- The depth is the least of the depth before and the scope ids of the stop timers. -/
  depth : IsLeast (insert (s.depth : ℤ) {k | ∃ id timer, s.Stops id timer ∧ timer.scopeid = k})
    (s'.depth : ℤ)
  /-- The outermost scopes are left. -/
  scopes : SameScopes s'.scopes (s.scopes.rtake s'.depth)
  /-- The next node is that of the stop timer with the smallest scope id, and among these the
  smallest id; or there is no stop timer whose scope id is below the depth. -/
  next : (∃ id timer, s.Stops id timer ∧ timer.scopeid < s.depth ∧ next = timer.nextRuleNode ∧
      ∀ id' other, s.Stops id' other → timer.scopeid < other.scopeid ∨
        timer.scopeid = other.scopeid ∧ id ≤ id') ∨
    (∀ id timer, s.Stops id timer → (s.depth : ℤ) ≤ timer.scopeid) ∧ next = none
  /-- The flags that were bound in a scope that is left are set, and nothing else that was bound in
  one has changed. -/
  frames : List.Forall₂ (FlagsSet (flagsOf (s.timers.toList.map Prod.snd)) s'.heap)
    (s.bindings.rtake s'.depth) s'.bindings
  heap : s.heap.Extends s'.heap

/-! ### The scope ids -/

section

variable {nodes : ι → RuleNode ι} [DecidableEq ι]

/-- A step has an event. -/
theorem Step.exists_event {s s' : Env ι} (h : Step nodes s s') : ∃ e, EventStep nodes s e s' := by
  cases h with
  | op o now h => exact ⟨_, EventStep.call h⟩
  | client h => exact ⟨_, EventStep.client h⟩

/-- **No timer belongs to the bottom scope.** -/
theorem Reachable.one_le_scopeid {s : Env ι} (h : Reachable nodes s) :
    ∀ id timer, s.getTimer id = some timer → 1 ≤ timer.scopeid := by
  have hnone : ∀ {t : Env ι}, t.timers = ∅ → ∀ id timer, t.getTimer id = some timer →
      1 ≤ timer.scopeid := by
    intro t ht id timer htimer
    rw [Env.getTimer, ht, ExtTreeMap.getElem?_empty] at htimer
    cases htimer
  induction h with
  | refl => exact hnone rfl
  | @tail s s' hs hstep ih =>
    have hsame : s'.timers = s.timers → ∀ id timer, s'.getTimer id = some timer →
        1 ≤ timer.scopeid := by
      intro heq id timer htimer
      rw [Env.getTimer, heq] at htimer
      exact ih id timer htimer
    have hchecked : ∀ front now, s'.timers = (checkTimer s front now).2 →
        ∀ id timer, s'.getTimer id = some timer → 1 ≤ timer.scopeid := by
      intro front now heq id timer htimer
      rw [Env.getTimer, heq] at htimer
      exact ih id timer (getElem?_of_checkTimer htimer)
    obtain ⟨e, hevent⟩ := hstep.exists_event
    cases hevent.timerMove with
    | same h => exact hsame h.1
    | enter _ _ htimers => exact hsame htimers
    | @enterTimed _ timer _ _ _ _ htimers =>
      intro id other hother
      rw [Env.getTimer, htimers, ExtTreeMap.getElem?_insert] at hother
      split at hother
      · -- the new timer has the depth of the stack, on which there is the bottom scope
        obtain rfl := Option.some.inj hother
        have hpos := List.length_pos_iff.mpr (Reachable.based hs).ne_nil
        show (1 : ℤ) ≤ (s.scopes.length : ℤ)
        omega
      · exact ih id other hother
    | @stay _ now front _ _ _ _ htimers => exact hchecked front now htimers
    | @leave _ now front _ _ _ _ _ _ htimers => exact hchecked front now htimers
    | sweep _ htimers => exact hnone htimers

end

/-! ### Taking scopes off -/

/-- The state with the `k` outermost scopes. -/
def Env.downTo (s : Env ι) (k : ℕ) : Env ι := { s with scopes := s.scopes.rtake k }

theorem Env.depth_downTo (s : Env ι) (k : ℕ) : (s.downTo k).depth = min k s.depth :=
  ScopeStack.length_rtake s.scopes k

theorem Env.bindings_downTo (s : Env ι) (k : ℕ) : (s.downTo k).bindings = s.bindings.rtake k :=
  (ScopeStack.rtake_map Scope.frame s.scopes k).symm

theorem Env.downTo_of_depth_le {s : Env ι} {k : ℕ} (h : s.depth ≤ k) : s.downTo k = s := by
  rw [Env.downTo, ScopeStack.rtake_eq_self h]

theorem Env.NonNull.downTo {s : Env ι} (h : s.NonNull) (k : ℕ) : (s.downTo k).NonNull :=
  fun scope hscope => h scope (List.mem_of_mem_drop hscope)

theorem Env.NonNull.of_sameScopes {s t : Env ι} (h : s.NonNull)
    (hsame : SameScopes t.scopes s.scopes) : t.NonNull := by
  intro scope hscope ctrl hctrl
  have hmem : ({ scope with vars := ∅ } : Scope ι) ∈
      s.scopes.map fun scope => { scope with vars := ∅ } := by
    rw [← hsame]
    exact List.mem_map_of_mem hscope
  obtain ⟨scope', hscope', heq⟩ := List.mem_map.mp hmem
  refine h scope' hscope' ctrl ?_
  have hctrl' : scope'.ctrlFlow = scope.ctrlFlow := (Scope.mk.inj heq).2.2.2
  rw [hctrl', hctrl]

theorem Env.Based.of_sameScopes {s t : Env ι} (h : s.Based)
    (hsame : SameScopes t.scopes s.scopes) : t.Based := by
  rw [Env.Based, hsame.owners_eq]
  exact h

/-- What forced exits leave keeps the bottom scope. -/
theorem Env.Based.downTo {s : Env ι} (h : s.Based) {k : ℕ} (hk : 1 ≤ k) : (s.downTo k).Based := by
  obtain ⟨n, hn⟩ := h
  refine ⟨min k (n + 1) - 1, ?_⟩
  have howners : owners (s.downTo k).scopes = (owners s.scopes).rtake k :=
    (ScopeStack.rtake_map Scope.owner s.scopes k).symm
  rw [howners, ← ScopeStack.rtake_map, hn, List.rtake, List.length_append, List.length_replicate,
    List.length_singleton, List.drop_append, List.drop_replicate, List.length_replicate]
  have hzero : n + 1 - k - n = 0 := by omega
  rw [hzero, List.drop_zero, show n - (n + 1 - k) = min k (n + 1) - 1 by omega]

section

variable {nodes : ι → RuleNode ι} {now : ℤ}

/-- **The `while` of a sweep** takes the stack down to the scope of the timer. The timers have been
moved out of the table, so no scope has one. -/
theorem exitDownTo_run {k rounds : ℕ} (hk : 1 ≤ k) {t : Env ι} (hbased : t.Based)
    (hnull : t.NonNull) (htimers : t.timers = ∅) (hrounds : t.depth ≤ k + rounds) :
    (exitDownTo nodes k now rounds).run t = .ok () (t.downTo k) := by
  induction rounds generalizing t with
  | zero =>
    have hle : t.depth ≤ k := hrounds
    have hnot : ¬ (k : ℤ) < t.depth := by omega
    rw [exitDownTo_zero_run, if_neg hnot, Env.downTo_of_depth_le hle]
  | succ rounds ih =>
    rw [exitDownTo_succ_run]
    by_cases hlt : (k : ℤ) < t.depth
    · obtain ⟨front, rest, hs⟩ := List.exists_cons_of_ne_nil hbased.ne_nil
      have hdepth : t.depth = rest.length + 1 := by rw [Env.depth, hs, List.length_cons]
      have hrest : rest ≠ [] := by
        rw [← List.length_pos_iff]
        omega
      have hctrl : front.ctrlFlow.isSome := by
        rcases hbased.cons_cases hs with ⟨-, hnil⟩ | ⟨hctrl, -⟩
        · exact absurd hnil hrest
        · exact hctrl
      obtain ⟨next, hrun⟩ := exitScope_force_pop nodes hnull hs hctrl now
      have hcheck : (checkTimer t front now).2 = t.timers := by
        rw [checkTimer_of_no_timers htimers, htimers]
      have hbased' : ({ t with scopes := rest } : Env ι).Based := hbased.tail hs hrest
      have hnull' : ({ t with scopes := rest } : Env ι).NonNull := fun scope hscope =>
        hnull scope (hs ▸ List.mem_cons_of_mem front hscope)
      have hdepth' : ({ t with scopes := rest } : Env ι).depth ≤ k + rounds := by
        show rest.length ≤ k + rounds
        omega
      have hdown : ({ t with scopes := rest } : Env ι).downTo k = t.downTo k := by
        rw [Env.downTo, Env.downTo, hs, ScopeStack.rtake_cons_of_le front (by omega)]
      rw [if_pos hlt, EStateM.run_bind, hrun, hcheck]
      exact (ih hbased' hnull' htimers hdepth').trans (by rw [hdown])
    · rw [if_neg hlt, Env.downTo_of_depth_le (by omega)]

end

/-! ### The turns -/

/-- The state after the turns of some timers, in a sweep of `s`. -/
structure Swept (s : Env ι) (done : List (Timer ι)) (t : Env ι) : Prop where
  based : t.Based
  nonNull : t.NonNull
  timers : t.timers = ∅
  unique : ScopeStack.UniquelyBound t.bindings
  depth_le : t.depth ≤ s.depth
  scopes : SameScopes t.scopes (s.scopes.rtake t.depth)
  frames : List.Forall₂ (FlagsSet (flagsOf done) t.heap) (s.bindings.rtake t.depth) t.bindings
  heap : s.heap.Extends t.heap

/-- A relation that holds along two lists and then along the second and a third. -/
theorem forall₂_trans {α β γ : Type*} {R : α → β → Prop} {S : β → γ → Prop} {T : α → γ → Prop}
    (hT : ∀ a b c, R a b → S b c → T a c) {l : List α} {l' : List β} {l'' : List γ}
    (h : List.Forall₂ R l l') (h' : List.Forall₂ S l' l'') : List.Forall₂ T l l'' := by
  induction h generalizing l'' with
  | nil =>
    cases h'
    exact List.Forall₂.nil
  | cons hR _ ih =>
    cases h' with
    | cons hS htail => exact List.Forall₂.cons (hT _ _ _ hR hS) (ih htail)

/-- A `Variable` that reads true does so in an extension of the store. -/
theorem Heap.Extends.value_eq_true {h h' : Heap} (hh : h.Extends h') {q : VarAddr}
    (hq : q < h.vars.length) (hv : h.value q = .bool true) :
    q < h'.vars.length ∧ h'.value q = .bool true := by
  refine ⟨hq.trans_le hh.vars.length_le, ?_⟩
  have hcell : h.storage q < h.cells.length := by
    by_contra hge
    rw [Heap.value, Heap.cell_eq_of_length_le (not_lt.mp hge)] at hv
    cases hv
  rw [Heap.value, hh.evolves.storage_eq hq, hh.cell_eq hcell]
  exact hv

namespace Swept

variable {s t : Env ι} {done : List (Timer ι)}

/-- Before the first turn. -/
theorem start (hbased : s.Based) (hnull : s.NonNull)
    (hunique : ScopeStack.UniquelyBound s.bindings) : Swept s [] { s with timers := ∅ } where
  based := hbased
  nonNull := hnull
  timers := rfl
  unique := hunique
  depth_le := le_rfl
  scopes := by
    have hself : s.scopes.rtake s.depth = s.scopes := ScopeStack.rtake_eq_self le_rfl
    show SameScopes s.scopes (s.scopes.rtake s.depth)
    rw [hself]
    exact SameScopes.refl _
  frames := by
    have hself : s.bindings.rtake s.depth = s.bindings :=
      ScopeStack.rtake_eq_self s.depth_eq_length_bindings.ge
    show List.Forall₂ _ (s.bindings.rtake s.depth) s.bindings
    rw [hself]
    refine List.forall₂_same.mpr fun f _ x => ⟨fun _ => rfl, ?_⟩
    rintro ⟨timer, htimer, -⟩
    cases htimer
  heap := Heap.Extends.refl _

/-- A flag is set. -/
theorem assign (h : Swept s done t) {timer : Timer ι} (hflag : timer.hasFlag) :
    Swept s (done ++ [timer]) (t.assign timer.flagName (.value (.bool true))) := by
  have hsame := t.sameScopes_assign timer.flagName (.value (.bool true))
  have hdepth : (t.assign timer.flagName (.value (.bool true))).depth = t.depth := hsame.length_eq
  have hext := t.extends_assign timer.flagName (.value (.bool true))
  refine ⟨h.based.of_sameScopes hsame, h.nonNull.of_sameScopes hsame, ?_, ?_, ?_, ?_, ?_,
    h.heap.trans hext⟩
  · rw [Env.timers_assign, h.timers]
  · rw [Env.bindings_assign]
    exact h.unique.assign _ _
  · rw [hdepth]
    exact h.depth_le
  · rw [hdepth]
    exact hsame.trans h.scopes
  · rw [hdepth, Env.bindings_assign, Env.heap_assign h.based.ne_nil]
    refine forall₂_trans ?_ h.frames (ScopeStack.forall₂_assign h.unique timer.flagName
      (SetArg.toPtr t.heap (.value (.bool true))).1)
    rintro f f' f'' hset ⟨hother, hnew⟩ x
    have hmem : x ∈ flagsOf (done ++ [timer]) ↔ x ∈ flagsOf done ∨ timer.flagName = x := by
      simp [flagsOf, or_and_right, exists_or, hflag]
    obtain ⟨hkeep, hdone⟩ := hset x
    rw [hmem, not_or]
    rcases eq_or_ne x timer.flagName with rfl | hne
    · refine ⟨fun hnot => absurd rfl hnot.2, fun _ hbound => ?_⟩
      have hbound' : (f' timer.flagName).isSome := by
        by_cases hx : timer.flagName ∈ flagsOf done
        · obtain ⟨q, hq, -⟩ := hdone hx hbound
          rw [hq]
          rfl
        · rwa [hkeep hx]
      refine ⟨t.heap.vars.length, hnew hbound', ?_, t.heap.value_makeVariable _⟩
      show t.heap.vars.length < (t.heap.vars ++ [_]).length
      rw [List.length_append, List.length_singleton]
      omega
    · rw [hother x hne]
      refine ⟨fun hnot => hkeep hnot.1, fun hx hbound => ?_⟩
      obtain ⟨q, hq, hlt, hvalue⟩ := hdone (hx.resolve_right hne.symm) hbound
      exact ⟨q, hq, (t.heap.extends_makeVariable (.bool true)).value_eq_true hlt hvalue⟩

/-- A timer without a flag. -/
theorem skip (h : Swept s done t) {timer : Timer ι} (hflag : timer.hasFlag = false) :
    Swept s (done ++ [timer]) t := by
  have hflags : flagsOf (done ++ [timer]) = flagsOf done := by
    ext x
    simp [flagsOf, or_and_right, exists_or, hflag]
  exact ⟨h.based, h.nonNull, h.timers, h.unique, h.depth_le, h.scopes, by
    rw [hflags]
    exact h.frames, h.heap⟩

/-- Scopes are taken off. -/
theorem downTo (h : Swept s done t) {k : ℕ} (hk : 1 ≤ k) : Swept s done (t.downTo k) := by
  have hle : (t.downTo k).depth ≤ t.depth := by
    rw [t.depth_downTo]
    exact min_le_right _ _
  have hscopes : t.scopes.rtake (t.downTo k).depth = (t.downTo k).scopes := by
    rw [t.depth_downTo]
    exact ScopeStack.rtake_min_length t.scopes k
  refine ⟨h.based.downTo hk, h.nonNull.downTo k, h.timers, ?_, hle.trans h.depth_le, ?_, ?_, h.heap⟩
  · rw [Env.bindings_downTo]
    have hdoms : ScopeStack.doms (t.bindings.rtake k) = (ScopeStack.doms t.bindings).rtake k :=
      (ScopeStack.rtake_map ScopeStack.dom t.bindings k).symm
    rw [ScopeStack.UniquelyBound, hdoms]
    exact List.Pairwise.sublist (List.drop_sublist _ _) h.unique
  · have hrtake : SameScopes (t.scopes.rtake (t.downTo k).depth)
        ((s.scopes.rtake t.depth).rtake (t.downTo k).depth) := by
      rw [SameScopes, ← ScopeStack.rtake_map, ← ScopeStack.rtake_map, h.scopes]
    rwa [ScopeStack.rtake_rtake hle, hscopes] at hrtake
  · have hrtake := ScopeStack.forall₂_rtake h.frames (t.downTo k).depth
    have hbindings : t.bindings.rtake (t.downTo k).depth = (t.downTo k).bindings := by
      rw [Env.bindings, ScopeStack.rtake_map, hscopes]
      rfl
    rwa [ScopeStack.rtake_rtake hle, hbindings] at hrtake

end Swept

/-- The next node and the last depth after the turn of a timer. -/
def lastExit (acc : Option ι × ℤ) (timer : Timer ι) : Option ι × ℤ :=
  if timer.type = .stop ∧ timer.scopeid < acc.2 then (timer.nextRuleNode, timer.scopeid) else acc

section

variable (nodes : ι → RuleNode ι) (now : ℤ)

/-- **One turn.** -/
theorem Swept.expireTimer {s t : Env ι} {done : List (Timer ι)} (h : Swept s done t)
    {timer : Timer ι} (hpos : 1 ≤ timer.scopeid) {acc : Option ι × ℤ} (hacc : acc.2 = t.depth) :
    ∃ t', (SocialGaming.expireTimer nodes now acc timer).run t = .ok (lastExit acc timer) t' ∧
      Swept s (done ++ [timer]) t' ∧ (lastExit acc timer).2 = t'.depth := by
  obtain ⟨u, hu, hdepth, hrun⟩ : ∃ u, Swept s (done ++ [timer]) u ∧ u.depth = t.depth ∧
      (SocialGaming.expireTimer nodes now acc timer).run t
        = ((if timer.type ≠ .stop then return acc else do
            exitDownTo nodes timer.scopeid now u.scopes.length
            return if acc.2 > timer.scopeid then (timer.nextRuleNode, timer.scopeid) else acc) :
          Call (Env ι) _).run u := by
    by_cases hflag : timer.hasFlag
    · refine ⟨_, h.assign hflag, (t.sameScopes_assign _ _).length_eq, ?_⟩
      rw [SocialGaming.expireTimer, if_pos hflag, EStateM.run_bind, setVariable_run]
      by_cases hstop : timer.type = .stop
      · simp only [hstop, ne_eq, not_true_eq_false, if_false, EStateM.run_bind, EStateM.run_get]
      · simp only [hstop, ne_eq, not_false_eq_true, if_true]
    · refine ⟨t, h.skip (by simpa using hflag), rfl, ?_⟩
      rw [SocialGaming.expireTimer, if_neg hflag]
      by_cases hstop : timer.type = .stop
      · simp only [hstop, ne_eq, not_true_eq_false, if_false, EStateM.run_bind, EStateM.run_get]
      · simp only [hstop, ne_eq, not_false_eq_true, if_true]
  by_cases hstop : timer.type = .stop
  · obtain ⟨k, hk⟩ := Int.eq_ofNat_of_zero_le (Int.le_of_lt hpos)
    have hk' : 1 ≤ k := by omega
    have hexit : (exitDownTo nodes timer.scopeid now u.scopes.length).run u
        = .ok () (u.downTo k) := by
      rw [hk]
      exact exitDownTo_run hk' hu.based hu.nonNull hu.timers (Nat.le_add_left _ _)
    have hlast : (if acc.2 > timer.scopeid then (timer.nextRuleNode, timer.scopeid) else acc)
        = lastExit acc timer := by
      simp only [lastExit, hstop, true_and, gt_iff_lt]
    refine ⟨u.downTo k, ?_, hu.downTo hk', ?_⟩
    · rw [hrun, if_neg (by simpa using hstop), EStateM.run_bind, hexit, hlast]
      rfl
    · rw [← hlast, u.depth_downTo, hdepth]
      by_cases hlt : acc.2 > timer.scopeid
      · rw [if_pos hlt]
        show timer.scopeid = _
        omega
      · rw [if_neg hlt]
        omega
  · have hlast : lastExit acc timer = acc := by
      rw [lastExit, if_neg (fun hand => hstop hand.1)]
    refine ⟨u, ?_, hu, ?_⟩
    · rw [hrun, if_pos hstop, hlast]
      rfl
    · rw [hlast, hacc, hdepth]

/-- **The turns of all timers.** -/
theorem Swept.sweep {s t : Env ι} {done timers : List (Timer ι)} (h : Swept s done t)
    (hpos : ∀ timer ∈ timers, 1 ≤ timer.scopeid) {acc : Option ι × ℤ} (hacc : acc.2 = t.depth) :
    ∃ t', (timers.foldlM (SocialGaming.expireTimer nodes now) acc).run t
        = .ok (timers.foldl lastExit acc) t' ∧
      Swept s (done ++ timers) t' ∧ (timers.foldl lastExit acc).2 = t'.depth := by
  induction timers generalizing t done acc with
  | nil => exact ⟨t, rfl, by rwa [List.append_nil], hacc⟩
  | cons timer timers ih =>
    rw [List.forall_mem_cons] at hpos
    obtain ⟨u, hrun, hu, hacc'⟩ := h.expireTimer nodes now hpos.1 hacc
    obtain ⟨t', hrest, ht', hlast⟩ := ih hu hpos.2 hacc'
    refine ⟨t', ?_, ?_, hlast⟩
    · rw [List.foldlM_cons, EStateM.run_bind, hrun]
      exact hrest
    · rwa [List.append_assoc] at ht'

end

/-! ### The next node -/

/-- After the turns of some entries of the table: either the first with the smallest scope id has
given the next node and the last depth, or no scope has been left. -/
def LastExit (depth : ℕ) (done : List (ℤ × Timer ι)) (acc : Option ι × ℤ) : Prop :=
  (∃ entry ∈ done, entry.2.type = .stop ∧ entry.2.scopeid < depth ∧
    acc = (entry.2.nextRuleNode, entry.2.scopeid) ∧
    ∀ other ∈ done, other.2.type = .stop → entry.2.scopeid < other.2.scopeid ∨
      entry.2.scopeid = other.2.scopeid ∧ entry.1 ≤ other.1) ∨
  (∀ other ∈ done, other.2.type = .stop → (depth : ℤ) ≤ other.2.scopeid) ∧ acc = (none, (depth : ℤ))

/-- One more turn, of an entry with a greater id. -/
theorem LastExit.snoc {depth : ℕ} {done : List (ℤ × Timer ι)} {acc : Option ι × ℤ}
    (h : LastExit depth done acc) {entry : ℤ × Timer ι} (hid : ∀ other ∈ done, other.1 < entry.1) :
    LastExit depth (done ++ [entry]) (lastExit acc entry.2) := by
  rw [lastExit]
  split
  · rename_i hleaves
    obtain ⟨hstop, hlt⟩ := hleaves
    refine Or.inl ⟨entry, by simp, hstop, ?_, rfl, fun other hother hstop' => ?_⟩
    · rcases h with ⟨first, -, -, hdepth, rfl, -⟩ | ⟨-, rfl⟩
      · exact hlt.trans hdepth
      · exact hlt
    · rcases List.mem_append.mp hother with hother | hother
      · rcases h with ⟨first, -, -, -, rfl, hfirst⟩ | ⟨hnone, rfl⟩
        · have hlt' : entry.2.scopeid < first.2.scopeid := hlt
          have hle := hfirst other hother hstop'
          omega
        · exact Or.inl (hlt.trans_le (hnone other hother hstop'))
      · obtain rfl := List.mem_singleton.mp hother
        exact Or.inr ⟨rfl, le_rfl⟩
  · rename_i hstays
    rcases h with ⟨first, hmem, hstop, hdepth, rfl, hfirst⟩ | ⟨hnone, rfl⟩
    · refine Or.inl ⟨first, List.mem_append_left _ hmem, hstop, hdepth, rfl, ?_⟩
      intro other hother hstop'
      rcases List.mem_append.mp hother with hother | hother
      · exact hfirst other hother hstop'
      · obtain rfl := List.mem_singleton.mp hother
        have hge : first.2.scopeid ≤ other.2.scopeid := not_lt.mp fun hlt => hstays ⟨hstop', hlt⟩
        rcases hge.lt_or_eq with hlt | heq
        · exact Or.inl hlt
        · exact Or.inr ⟨heq, (hid first hmem).le⟩
    · refine Or.inr ⟨fun other hother hstop' => ?_, rfl⟩
      rcases List.mem_append.mp hother with hother | hother
      · exact hnone other hother hstop'
      · obtain rfl := List.mem_singleton.mp hother
        exact not_lt.mp fun hlt => hstays ⟨hstop', hlt⟩

/-- All turns, in the order of the ids. -/
theorem lastExit_foldl (depth : ℕ) {entries : List (ℤ × Timer ι)}
    (hsorted : entries.Pairwise fun a b => a.1 < b.1) :
    LastExit depth entries ((entries.map Prod.snd).foldl lastExit (none, (depth : ℤ))) := by
  induction entries using List.reverseRecOn with
  | nil => exact Or.inr ⟨fun _ h => absurd h List.not_mem_nil, rfl⟩
  | append_singleton entries entry ih =>
    obtain ⟨hentries, -, hlast⟩ := List.pairwise_append.mp hsorted
    rw [List.map_append, List.foldl_append]
    exact (ih hentries).snoc fun other hother => hlast other hother entry (by simp)

/-- The last depth is the least of the depth before and the scope ids. -/
theorem LastExit.isLeast {depth : ℕ} {done : List (ℤ × Timer ι)} {acc : Option ι × ℤ}
    (h : LastExit depth done acc) :
    IsLeast (insert (depth : ℤ) {k | ∃ entry ∈ done, entry.2.type = .stop ∧
      entry.2.scopeid = k}) acc.2 := by
  rcases h with ⟨first, hmem, hstop, hdepth, rfl, hfirst⟩ | ⟨hnone, rfl⟩
  · refine ⟨Or.inr ⟨first, hmem, hstop, rfl⟩, ?_⟩
    rintro k (rfl | ⟨other, hother, hstop', rfl⟩)
    · exact hdepth.le
    · have hle := hfirst other hother hstop'
      show first.2.scopeid ≤ other.2.scopeid
      omega
  · refine ⟨Or.inl rfl, ?_⟩
    rintro k (rfl | ⟨other, hother, hstop', rfl⟩)
    · exact le_rfl
    · exact hnone other hother hstop'

/-! ### The whole sweep -/

/-- An entry of the table. -/
theorem Env.mem_timers_iff {s : Env ι} {entry : ℤ × Timer ι} :
    entry ∈ s.timers.toList ↔ s.getTimer entry.1 = some entry.2 :=
  ExtTreeMap.mem_toList_iff_getElem?_eq_some

theorem Env.stops_iff {s : Env ι} {id : ℤ} {timer : Timer ι} :
    s.Stops id timer ↔ (id, timer) ∈ s.timers.toList ∧ timer.type = .stop := by
  rw [Env.Stops, Env.mem_timers_iff]

/-- The entries are in the order of their ids. -/
theorem Env.pairwise_timers (s : Env ι) : s.timers.toList.Pairwise fun a b => a.1 < b.1 :=
  ExtTreeMap.ordered_keys_toList.imp fun h => compare_lt_iff_lt.mp h

variable [DecidableEq ι] {nodes : ι → RuleNode ι}

/-- **The outcome of a timer sweep.** In every reachable state whose scopes were entered with
non-null nodes, a sweep ends. The depth afterwards is the least of the depth before and the scope
ids of the stop timers; the scopes that are left are the outermost ones; the next node is that of
the stop timer with the smallest scope id below the depth, and the smallest id among these; the
flags that a scope which is left had bound are true, and its other names are bound to the
`Variable`s they were bound to, with the values these had. -/
theorem updateTimers_outcome {s : Env ι} (h : Reachable nodes s) (hnull : s.NonNull) (now : ℤ) :
    ∃ next s', (updateTimers nodes now).run s = .ok next s' ∧ SweepOutcome s next s' := by
  have hpos : ∀ timer ∈ s.timers.toList.map Prod.snd, 1 ≤ timer.scopeid := by
    intro timer htimer
    obtain ⟨⟨id, timer⟩, hentry, rfl⟩ := List.mem_map.mp htimer
    exact h.one_le_scopeid id timer (Env.mem_timers_iff.mp hentry)
  have hacc : ((none, (s.depth : ℤ)) : Option ι × ℤ).2 = s.depth := rfl
  obtain ⟨s', hrun, hswept, hdepth⟩ :=
    (Swept.start h.based hnull h.uniquelyBound).sweep nodes now hpos hacc
  have hlast := lastExit_foldl s.depth s.pairwise_timers
  have hstops : {k | ∃ id timer, s.Stops id timer ∧ timer.scopeid = k}
      = {k | ∃ entry ∈ s.timers.toList, entry.2.type = .stop ∧ entry.2.scopeid = k} := by
    ext k
    constructor
    · rintro ⟨id, timer, htimer, hk⟩
      obtain ⟨hmem, hstop⟩ := Env.stops_iff.mp htimer
      exact ⟨(id, timer), hmem, hstop, hk⟩
    · rintro ⟨⟨id, timer⟩, hmem, hstop, hk⟩
      exact ⟨id, timer, Env.stops_iff.mpr ⟨hmem, hstop⟩, hk⟩
  refine ⟨((s.timers.toList.map Prod.snd).foldl lastExit (none, (s.depth : ℤ))).1, s', ?_, ?_,
    hswept.scopes, ?_, hswept.frames, hswept.heap⟩
  · have hrun' : ((s.timers.toList.map Prod.snd).foldlM (expireTimer nodes now)
        (none, (s.scopes.length : ℤ))).run { s with timers := ∅ } = _ := hrun
    rw [updateTimers_run, Prog.run_map, hrun']
  · rw [hstops, ← hdepth]
    exact hlast.isLeast
  · rcases hlast with ⟨⟨id, timer⟩, hmem, hstop, hlt, heq, hfirst⟩ | ⟨hnone, heq⟩
    · refine Or.inl ⟨id, timer, Env.stops_iff.mpr ⟨hmem, hstop⟩, hlt, congrArg Prod.fst heq, ?_⟩
      intro id' other hother
      obtain ⟨hmem', hstop'⟩ := Env.stops_iff.mp hother
      exact hfirst (id', other) hmem' hstop'
    · refine Or.inr ⟨fun id timer htimer => ?_, congrArg Prod.fst heq⟩
      obtain ⟨hmem, hstop⟩ := Env.stops_iff.mp htimer
      exact hnone (id, timer) hmem hstop

/-- The sweep of an environment with a stop timer: its scope is left. -/
theorem updateTimers_outcome_timed :
    ∃ next s', (updateTimers matchNode 1).run timedEnv = .ok next s' ∧
      SweepOutcome timedEnv next s' := by
  have hreach : Reachable matchNode timedEnv :=
    Relation.ReflTransGen.single (Step.op (.enterScopeTimed (some ()) lateTimer) 0 rfl)
  refine updateTimers_outcome hreach ?_ 1
  intro scope hscope ctrl hctrl
  have hscopes : timedEnv.scopes.map Scope.ctrlFlow = [some { node := some () }, none] := rfl
  have hmem : some ctrl ∈ timedEnv.scopes.map Scope.ctrlFlow :=
    hctrl ▸ List.mem_map_of_mem hscope
  rw [hscopes] at hmem
  obtain rfl : ctrl = { node := some () } := by simpa using hmem
  rfl

end SocialGaming
