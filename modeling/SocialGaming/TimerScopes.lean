import SocialGaming.Library.Collections
import SocialGaming.TimerMoves
import Mathlib.Data.List.Nodup

/-!
# The scopes a stop timer ends

A timer knows its scope by a number, the depth of the stack when the scope was entered, and stays in
the table when a timer with a flag outlives its scope. The number then belongs to no scope, until
the next scope is entered at that depth.

Here the entries to scopes are counted, and a run carries along which entry each scope on the stack
came from and which entry each timer came with. The environment does not look at this history.

## Main definitions

* `Entry`, `Tracked` — an environment with the history of its scopes
* `TrackedStep` — a step, and what becomes of the history
* `StopsOwnBlock` — a sweep in which each stop timer ends its own scope, or nothing
* `Revives` — a step that enters a scope at the depth of a stop timer whose scope is gone
* `EntryAt` — where the scope of a timer is

## Main results

* `Run.exists_tracked` — every run has a history
* `TrackedStep.sound` — what a step keeps of the history and the timers
* `updateTimers_stopsOwnBlock` — without such a step, every stop timer ends its own scope only
-/

namespace SocialGaming

open Std (ExtTreeMap)

variable {ι : Type}

/-! ### Histories -/

/-- An entry to a scope: its number, and the numbers of the scopes that were on the stack then. -/
structure Entry where
  number : ℕ
  below : List ℕ

/-- An environment, the entries of the scopes on its stack, for each timer id the entry that last
came with such a timer, and the number of entries so far. -/
structure Tracked (ι : Type) where
  env : Env ι := {}
  entries : List Entry := [⟨0, []⟩]
  owner : ℤ → Option ℕ := fun _ => none
  count : ℕ := 1

namespace Tracked

/-- The numbers of the scopes on the stack. -/
def numbers (s : Tracked ι) : List ℕ := s.entries.map Entry.number

/-- The owner of a timer id after an entry by the event. -/
def entryOwner (s : Tracked ι) : Event ι → ℤ → Option ℕ
  | .call (.enterScopeTimed _ timer) _ => Function.update s.owner timer.id (some s.count)
  | _ => s.owner

/-- The history when the environment has become `env`. No step both enters a scope and leaves one,
so the depth tells which. -/
def next (s : Tracked ι) (e : Event ι) (env : Env ι) : Tracked ι :=
  if s.env.depth < env.depth then
    { env, entries := ⟨s.count, s.numbers⟩ :: s.entries, owner := s.entryOwner e,
      count := s.count + 1 }
  else { s with env, entries := s.entries.drop (s.env.depth - env.depth) }

@[simp] theorem env_next (s : Tracked ι) (e : Event ι) (env : Env ι) :
    (s.next e env).env = env := by
  rw [next]
  split
  · rfl
  · rfl

/-- The entries of the scopes that are left when the stack has been taken down to a depth. -/
def downTo (s : Tracked ι) (depth : ℕ) : List Entry := s.entries.drop (s.entries.length - depth)

end Tracked

section

variable [DecidableEq ι] (nodes : ι → RuleNode ι)

/-- A step, and the history after it. -/
def TrackedStep (s : Tracked ι) (e : Event ι) (s' : Tracked ι) : Prop :=
  EventStep nodes s.env e s'.env ∧ s' = s.next e s'.env

/-- In a sweep, the turn of each stop timer, whose scope has the number `o`: every scope it leaves,
however its turn ends, has that number or was entered while scope `o` was on the stack; and if scope
`o` is not on the stack then it leaves none, and the next node and the last depth stay as they
were. -/
def StopsOwnBlock (now : ℤ) (s : Tracked ι) : Prop :=
  ∀ before after id timer, s.env.timers.toList = before ++ (id, timer) :: after →
    timer.type = .stop → ∀ acc t,
    ((before.map Prod.snd).foldlM (expireTimer nodes now) (none, (s.env.depth : ℤ))).run
      { s.env with timers := ∅ } = .ok acc t →
    ∃ o, s.owner id = some o ∧
      (∀ entry ∈ s.downTo t.depth,
        entry ∉ s.downTo (Prog.ends ((expireTimer nodes now acc timer).run t)).depth →
        entry.number = o ∨ o ∈ entry.below) ∧
      (o ∉ (s.downTo t.depth).map Entry.number →
        ∃ t', (expireTimer nodes now acc timer).run t = .ok acc t' ∧ t'.depth = t.depth)

/-- The step enters a scope at the depth of a stop timer in the table, which it does not replace.
The scope of that timer is no longer on the stack. -/
inductive Revives : Env ι × Event ι → Prop
  | enter {s : Env ι} {node : Option ι} {now id : ℤ} {timer : Timer ι}
      (htimer : s.getTimer id = some timer) (hstop : timer.type = .stop)
      (hdepth : timer.scopeid = s.depth) (henters : Enters nodes s node) :
      Revives (s, .call (.enterScope node) now)
  | enterTimed {s : Env ι} {node : Option ι} {now id : ℤ} {timer other : Timer ι} {scope : Scope ι}
      (htimer : s.getTimer id = some timer) (hstop : timer.type = .stop)
      (hdepth : timer.scopeid = s.depth) (hnew : Scope.new nodes node s = .ok scope)
      (hother : other.id ≠ id) : Revives (s, .call (.enterScopeTimed node other) now)

variable {nodes}

/-- **Every run has a history.** -/
theorem Run.exists_tracked {t : List (Env ι × Event ι)} {s : Env ι}
    (h : Run (EventStep nodes) {} t s) :
    ∃ u s', Run (TrackedStep nodes) {} u s' ∧ s'.env = s ∧
      u.map (fun p => (p.1.env, p.2)) = t := by
  induction h with
  | nil => exact ⟨[], {}, Run.nil, rfl, rfl⟩
  | @snoc t s s' e _ hstep ih =>
    obtain ⟨u, tracked, hrun, rfl, rfl⟩ := ih
    refine ⟨u ++ [(tracked, e)], tracked.next e s', hrun.snoc ⟨?_, ?_⟩, tracked.env_next e s', ?_⟩
    · rwa [tracked.env_next]
    · rw [tracked.env_next]
    · rw [List.map_append, List.map_singleton]

end

/-! ### Where the scope of a timer is -/

/-- Either the scope with the number `o` lies on `depth` others, or it is gone, and so is every
scope above that depth. -/
def EntryAt (entries : List Entry) (o depth : ℕ) : Prop :=
  (∃ above entry below, entries = above ++ entry :: below ∧ entry.number = o ∧
    below.length = depth) ∨
  o ∉ entries.map Entry.number ∧ entries.length ≤ depth

namespace EntryAt

variable {entries : List Entry} {entry : Entry} {o depth : ℕ}

/-- The scope that has just been entered. -/
theorem head (entry : Entry) (entries : List Entry) :
    EntryAt (entry :: entries) entry.number entries.length :=
  Or.inl ⟨[], entry, entries, rfl, rfl, rfl⟩

/-- Another scope is entered, not at the depth of one that is gone. -/
theorem cons (h : EntryAt entries o depth) (hne : entry.number ≠ o)
    (hdepth : depth ≠ entries.length) : EntryAt (entry :: entries) o depth := by
  rcases h with ⟨above, own, below, rfl, hown, hbelow⟩ | ⟨hgone, hle⟩
  · exact Or.inl ⟨entry :: above, own, below, rfl, hown, hbelow⟩
  · refine Or.inr ⟨?_, by rw [List.length_cons]; omega⟩
    rw [List.map_cons, List.mem_cons, not_or]
    exact ⟨hne.symm, hgone⟩

/-- The front scope is left. -/
theorem tail (h : EntryAt (entry :: entries) o depth)
    (hnodup : ((entry :: entries).map Entry.number).Nodup) : EntryAt entries o depth := by
  rcases h with ⟨above, own, below, heq, hown, hbelow⟩ | ⟨hgone, hle⟩
  · cases above with
    | nil =>
      obtain ⟨rfl, rfl⟩ := List.cons.inj heq
      refine Or.inr ⟨?_, hbelow.le⟩
      rw [← hown]
      exact (List.nodup_cons.mp hnodup).1
    | cons first above =>
      obtain ⟨-, rfl⟩ := List.cons.inj heq
      exact Or.inl ⟨above, own, below, rfl, hown, hbelow⟩
  · rw [List.map_cons, List.mem_cons, not_or] at hgone
    exact Or.inr ⟨hgone.2, Nat.le_of_succ_le hle⟩

end EntryAt

/-! ### The sweep -/

section

variable (nodes : ι → RuleNode ι) (now : ℤ)

/-- `exitScope` leaves one scope at most, however it ends. -/
theorem depth_le_ends_exitScope (force : Bool) (s : Env ι) :
    s.depth ≤ (Prog.ends ((exitScope nodes force now).run s)).depth + 1 := by
  cases hs : s.scopes with
  | nil =>
    rw [exitScope_nil nodes hs]
    exact Nat.le_succ _
  | cons front rest =>
    have hdepth : s.depth = rest.length + 1 := by rw [Env.depth, hs, List.length_cons]
    cases hc : front.ctrlFlow with
    | none =>
      rw [exitScope_base nodes hs hc]
      exact Nat.le_succ _
    | some ctrl =>
      by_cases he : force = true ∨ ctrl.exiting = true
      · cases hn : ctrl.node with
        | none =>
          rw [exitScope_null nodes hs hc he hn]
          exact Nat.le_succ _
        | some n =>
          rw [exitScope_pop nodes hs hc he hn]
          exact hdepth.le
      · obtain ⟨hforce, hexit⟩ := not_or.mp he
        obtain rfl : force = false := by simpa using hforce
        rw [exitScope_again nodes hs hc (by simpa using hexit)]
        show s.depth ≤ rest.length + 1 + 1
        omega

/-- The `while` of the sweep stops at the depth of the timer. -/
theorem min_le_ends_exitDownTo (k rounds : ℕ) (s : Env ι) :
    min s.depth k ≤ (Prog.ends ((exitDownTo nodes k now rounds).run s)).depth := by
  induction rounds generalizing s with
  | zero =>
    rw [exitDownTo_zero_run]
    split
    · exact min_le_left _ _
    · exact min_le_left _ _
  | succ rounds ih =>
    rw [exitDownTo_succ_run]
    split
    · rename_i hlt
      have hlt' : k < s.depth := by exact_mod_cast hlt
      have hexit := depth_le_ends_exitScope nodes now true s
      rw [EStateM.run_bind]
      cases hrun : (exitScope nodes true now).run s with
      | ok r t =>
        rw [hrun] at hexit
        have hle : s.depth ≤ t.depth + 1 := hexit
        have hrest := ih t
        show min s.depth k ≤ (Prog.ends ((exitDownTo nodes k now rounds).run t)).depth
        omega
      | error f t =>
        rw [hrun] at hexit
        have hle : s.depth ≤ t.depth + 1 := hexit
        show min s.depth k ≤ t.depth
        omega
    · exact min_le_left _ _

/-- It does nothing when the stack is no deeper than that. -/
theorem exitDownTo_idle {k : ℕ} {s : Env ι} (h : s.depth ≤ k) (rounds : ℕ) :
    (exitDownTo nodes k now rounds).run s = .ok () s := by
  have hnot : ¬ (k : ℤ) < s.depth := by omega
  cases rounds with
  | zero => rw [exitDownTo_zero_run, if_neg hnot]
  | succ rounds => rw [exitDownTo_succ_run, if_neg hnot]

section

variable {timer : Timer ι} {k : ℕ} (hstop : timer.type = .stop) (hk : timer.scopeid = k)

include hstop hk

/-- The turn of a stop timer ends no scope at or below the depth of the timer. -/
theorem min_le_ends_expireTimer (acc : Option ι × ℤ) (s : Env ι) :
    min s.depth k ≤ (Prog.ends ((expireTimer nodes now acc timer).run s)).depth := by
  obtain ⟨t, hsame, hrun⟩ := expireTimer_stop nodes now hstop acc s
  have hexit := min_le_ends_exitDownTo nodes now k t.scopes.length t
  rw [hsame, ← hk] at hexit
  rw [hrun, EStateM.run_bind]
  cases hrun' : (exitDownTo nodes timer.scopeid now t.scopes.length).run t with
  | ok r u =>
    rw [hrun'] at hexit
    exact hexit
  | error f u =>
    rw [hrun'] at hexit
    exact hexit

/-- When the stack is no deeper than that, the turn returns what it was given. -/
theorem expireTimer_idle {acc : Option ι × ℤ} {s : Env ι} (hle : s.depth ≤ k) (hacc : acc.2 ≤ k) :
    ∃ t, (expireTimer nodes now acc timer).run s = .ok acc t ∧ t.depth = s.depth := by
  obtain ⟨t, hsame, hrun⟩ := expireTimer_stop nodes now hstop acc s
  have hidle := exitDownTo_idle nodes now (hsame.trans_le hle) t.scopes.length
  have hnot : ¬ acc.2 > timer.scopeid := by omega
  refine ⟨t, ?_, hsame⟩
  rw [hrun, EStateM.run_bind, hk, hidle, ← hk, if_neg hnot]
  rfl

/-- When it returns, the last depth is that of the stack. -/
theorem expireTimer_last {acc acc' : Option ι × ℤ} {s s' : Env ι} (hacc : acc.2 = s.depth)
    (h : (expireTimer nodes now acc timer).run s = .ok acc' s') : acc'.2 = s'.depth := by
  have hends := min_le_ends_expireTimer nodes now hstop hk acc s
  have hshallow := depth_of_expireTimer hstop h
  obtain ⟨t, hsame, hrun⟩ := expireTimer_stop nodes now hstop acc s
  rw [h] at hends hrun
  obtain ⟨⟨⟩, u, hexit, hret⟩ := Prog.run_bind_eq_ok.mp hrun.symm
  obtain ⟨rfl, rfl⟩ := EStateM.Result.ok.inj hret
  have hle : min s.depth k ≤ u.depth := hends
  by_cases hlt : acc.2 > timer.scopeid
  · rw [if_pos hlt]
    show timer.scopeid = u.depth
    omega
  · rw [if_neg hlt]
    have hidle : (exitDownTo nodes timer.scopeid now t.scopes.length).run t = .ok () t := by
      rw [hk]
      refine exitDownTo_idle nodes now ?_ _
      rw [hsame]
      omega
    rw [hidle] at hexit
    obtain rfl := (EStateM.Result.ok.inj hexit).2
    rw [hacc, hsame]

end

/-- A timer of another kind leaves no scope. -/
theorem expireTimer_other {timer : Timer ι} (hother : timer.type ≠ .stop) (acc : Option ι × ℤ)
    (s : Env ι) :
    ∃ t, (expireTimer nodes now acc timer).run s = .ok acc t ∧ t.depth = s.depth := by
  rw [expireTimer]
  by_cases hflag : timer.hasFlag
  · refine ⟨s.assign timer.flagName (.value (.bool true)), ?_, (s.sameScopes_assign _ _).length_eq⟩
    simp only [hflag, if_true, ne_eq, hother, not_false_eq_true, EStateM.run_bind, setVariable_run]
    rfl
  · refine ⟨s, ?_, rfl⟩
    simp only [hflag, ne_eq, hother, not_false_eq_true, if_true]
    rfl

/-- As long as the turns return, the last depth is that of the stack. -/
theorem sweep_last {timers : List (Timer ι)}
    (htimers : ∀ timer ∈ timers, timer.type = .stop → ∃ k : ℕ, timer.scopeid = k)
    {acc acc' : Option ι × ℤ} {s s' : Env ι} (hacc : acc.2 = s.depth)
    (h : (timers.foldlM (expireTimer nodes now) acc).run s = .ok acc' s') :
    acc'.2 = s'.depth := by
  induction timers generalizing acc s with
  | nil =>
    obtain ⟨rfl, rfl⟩ := EStateM.Result.ok.inj h
    exact hacc
  | cons timer rest ih =>
    rw [List.foldlM_cons] at h
    obtain ⟨acc₁, t, hfirst, hrest⟩ := Prog.run_bind_eq_ok.mp h
    rw [List.forall_mem_cons] at htimers
    refine ih htimers.2 ?_ hrest
    by_cases hstop : timer.type = .stop
    · obtain ⟨k, hk⟩ := htimers.1 hstop
      exact expireTimer_last nodes now hstop hk hacc hfirst
    · obtain ⟨u, hrun, hdepth⟩ := expireTimer_other nodes now hstop acc s
      rw [hrun] at hfirst
      obtain ⟨rfl, rfl⟩ := EStateM.Result.ok.inj hfirst
      rw [hacc, hdepth]

end

/-! ### The invariant -/

/-- The history fits the environment, and every stop timer in the table has an entry whose scope is
where the timer says, or is gone together with every scope above that depth. -/
structure Tracked.Sound (s : Tracked ι) : Prop where
  length_eq : s.entries.length = s.env.depth
  fresh : ∀ n ∈ s.numbers, n < s.count
  nodup : s.numbers.Nodup
  below : s.entries.Pairwise fun upper lower => lower.number ∈ upper.below
  placed : ∀ id timer, s.env.getTimer id = some timer → timer.type = .stop →
    ∃ o k, s.owner id = some o ∧ o < s.count ∧ timer.scopeid = (k : ℕ) ∧ EntryAt s.entries o k

theorem Tracked.sound_new : ({} : Tracked ι).Sound where
  length_eq := rfl
  fresh := fun n hn => by
    obtain rfl := List.mem_singleton.mp hn
    exact Nat.zero_lt_one
  nodup := List.nodup_singleton 0
  below := List.pairwise_singleton _ _
  placed := by
    rintro id timer ⟨⟩

/-- `exitScope` adds no timer. -/
theorem getElem?_of_checkTimer {s : Env ι} {front : Scope ι} {now id : ℤ} {timer : Timer ι}
    (h : (checkTimer s front now).2[id]? = some timer) : s.getTimer id = some timer := by
  rw [checkTimer] at h
  cases hown : s.timers[front.timerId]? with
  | none =>
    rw [hown] at h
    exact h
  | some own =>
    simp only [hown] at h
    split at h
    · exact h
    · split at h
      · rw [ExtTreeMap.getElem?_erase] at h
        split at h
        · cases h
        · exact h
      · exact h

namespace Tracked.Sound

variable {s : Tracked ι} {e : Event ι} {env : Env ι}

/-- No scope is entered, and none is left. -/
theorem next_same (h : s.Sound) (hdepth : env.depth = s.env.depth)
    (htimers : ∀ id timer, env.getTimer id = some timer → s.env.getTimer id = some timer) :
    (s.next e env).Sound := by
  rw [Tracked.next, if_neg (by omega), hdepth, Nat.sub_self, List.drop_zero]
  exact ⟨h.length_eq.trans hdepth.symm, h.fresh, h.nodup, h.below, fun id timer htimer hstop =>
    h.placed id timer (htimers id timer htimer) hstop⟩

/-- A scope is entered. -/
theorem next_push (h : s.Sound) (hdepth : env.depth = s.env.depth + 1)
    (hplaced : ∀ id timer, env.getTimer id = some timer → timer.type = .stop →
      (s.entryOwner e id = some s.count ∧ timer.scopeid = s.env.depth) ∨
      (s.entryOwner e id = s.owner id ∧ s.env.getTimer id = some timer ∧
        timer.scopeid ≠ s.env.depth)) : (s.next e env).Sound := by
  rw [Tracked.next, if_pos (by omega)]
  have hnotin : s.count ∉ s.numbers := fun hmem => absurd (h.fresh _ hmem) (lt_irrefl _)
  refine ⟨?_, ?_, List.nodup_cons.mpr ⟨hnotin, h.nodup⟩, ?_, fun id timer htimer hstop => ?_⟩
  · show s.entries.length + 1 = env.depth
    rw [h.length_eq, hdepth]
  · intro n hn
    rcases List.mem_cons.mp hn with rfl | hn
    · exact Nat.lt_succ_self _
    · exact Nat.lt_succ_of_lt (h.fresh n hn)
  · exact List.pairwise_cons.mpr
      ⟨fun lower hlower => List.mem_map_of_mem hlower, h.below⟩
  · rcases hplaced id timer htimer hstop with ⟨howner, hscopeid⟩ | ⟨howner, hold, hscopeid⟩
    · refine ⟨s.count, s.entries.length, howner, Nat.lt_succ_self _, ?_, EntryAt.head _ _⟩
      rw [hscopeid, h.length_eq]
    · obtain ⟨o, k, hown, ho, hk, hp⟩ := h.placed id timer hold hstop
      refine ⟨o, k, howner.trans hown, Nat.lt_succ_of_lt ho, hk, hp.cons (Nat.ne_of_gt ho) ?_⟩
      rw [h.length_eq]
      omega

/-- The front scope is left. -/
theorem next_pop (h : s.Sound) (hdepth : s.env.depth = env.depth + 1)
    (htimers : ∀ id timer, env.getTimer id = some timer → s.env.getTimer id = some timer) :
    (s.next e env).Sound := by
  have hlength := h.length_eq
  cases hentries : s.entries with
  | nil =>
    rw [hentries, hdepth] at hlength
    cases hlength
  | cons front rest =>
    have hdrop : s.entries.drop (s.env.depth - env.depth) = rest := by
      rw [hdepth, Nat.add_sub_cancel_left, hentries, List.drop_one, List.tail_cons]
    have hnumbers : s.numbers = front.number :: rest.map Entry.number := by
      rw [Tracked.numbers, hentries, List.map_cons]
    rw [hentries, List.length_cons] at hlength
    rw [Tracked.next, if_neg (by omega), hdrop]
    have hnodup := h.nodup
    have hbelow := h.below
    rw [hentries] at hbelow
    rw [hnumbers] at hnodup
    refine ⟨?_, fun n hn => h.fresh n ?_, (List.nodup_cons.mp hnodup).2,
      (List.pairwise_cons.mp hbelow).2, fun id timer htimer hstop => ?_⟩
    · show rest.length = env.depth
      omega
    · rw [hnumbers]
      exact List.mem_cons_of_mem _ hn
    · obtain ⟨o, k, hown, ho, hk, hp⟩ := h.placed id timer (htimers id timer htimer) hstop
      rw [hentries] at hp
      exact ⟨o, k, hown, ho, hk, hp.tail hnodup⟩

/-- The timers are swept. -/
theorem next_sweep (h : s.Sound) (hdepth : env.depth ≤ s.env.depth) (htimers : env.timers = ∅) :
    (s.next e env).Sound := by
  have hlength := h.length_eq
  rw [Tracked.next, if_neg (by omega)]
  have hsub : (s.entries.drop (s.env.depth - env.depth)).Sublist s.entries :=
    List.drop_sublist _ _
  refine ⟨?_, fun n hn => h.fresh n ((hsub.map _).subset hn), h.nodup.sublist (hsub.map _),
    h.below.sublist hsub, fun id timer htimer hstop => ?_⟩
  · show (s.entries.drop (s.env.depth - env.depth)).length = env.depth
    rw [List.length_drop]
    omega
  · have hnone : env.getTimer id = none := by
      rw [Env.getTimer, htimers, ExtTreeMap.getElem?_empty]
    rw [hnone] at htimer
    cases htimer

end Tracked.Sound

/-! ### Runs -/

/-- The scopes left at a lower depth are among those left at a higher one. -/
theorem Tracked.downTo_subset (s : Tracked ι) {d d' : ℕ} (h : d ≤ d') : s.downTo d ⊆ s.downTo d' :=
  (List.drop_sublist_drop_left _ (by omega)).subset

theorem Tracked.downTo_append {s : Tracked ι} {above below : List Entry} {own : Entry}
    (h : s.entries = above ++ own :: below) : s.downTo below.length = below := by
  have hlength : (above ++ own :: below).length - below.length = (above ++ [own]).length := by
    rw [List.length_append, List.length_append, List.length_cons, List.length_singleton]
    omega
  rw [Tracked.downTo, h, hlength, List.append_cons above own below, List.drop_left]

section

variable {nodes : ι → RuleNode ι}

/-- A sweep of a state with the invariant. -/
theorem Tracked.Sound.stopsOwnBlock {s : Tracked ι} (h : s.Sound) (now : ℤ) :
    StopsOwnBlock nodes now s := by
  intro before after id timer htimers hstop acc t hrun
  have hmem : ∀ p ∈ s.env.timers.toList, s.env.getTimer p.1 = some p.2 := fun p hp =>
    ExtTreeMap.mem_toList_iff_getElem?_eq_some.mp hp
  rw [htimers, List.forall_mem_append, List.forall_mem_cons] at hmem
  obtain ⟨o, k, hown, -, hk, hp⟩ := h.placed id timer hmem.2.1 hstop
  have hlast : acc.2 = t.depth := by
    refine sweep_last nodes now (fun other hother hstop' => ?_) rfl hrun
    obtain ⟨p, hp, rfl⟩ := List.mem_map.mp hother
    obtain ⟨-, k', -, -, hk', -⟩ := h.placed p.1 p.2 (hmem.1 p hp) hstop'
    exact ⟨k', hk'⟩
  have hdepth : t.depth ≤ s.env.depth :=
    sweep_depthLe _ _ { s.env with timers := ∅ } t (congrArg Prog.after? hrun)
  have hends := min_le_ends_expireTimer nodes now hstop hk acc t
  -- the turn leaves a scope only when the stack is deeper than the timer says
  have hdeep : ∀ entry ∈ s.downTo t.depth,
      entry ∉ s.downTo (Prog.ends ((expireTimer nodes now acc timer).run t)).depth →
      k < t.depth := by
    intro entry hin hout
    by_contra hle
    exact hout (s.downTo_subset (by omega) hin)
  refine ⟨o, hown, fun entry hin hout => ?_, fun hleft => ?_⟩
  · have hlt := hdeep entry hin hout
    rcases hp with ⟨above, own, below, hentries, rfl, rfl⟩ | ⟨-, hle⟩
    · have hnotin : entry ∉ below := by
        rw [← Tracked.downTo_append hentries]
        exact fun hbelow => hout (s.downTo_subset (by omega) hbelow)
      have hmem' : entry ∈ above ++ own :: below := hentries ▸ List.mem_of_mem_drop hin
      have hbelow := h.below
      rw [hentries, List.pairwise_append] at hbelow
      rcases List.mem_append.mp hmem' with habove | hrest
      · exact Or.inr (hbelow.2.2 entry habove own List.mem_cons_self)
      · rcases List.mem_cons.mp hrest with rfl | hin'
        · exact Or.inl rfl
        · exact absurd hin' hnotin
    · rw [h.length_eq] at hle
      omega
  · have hle : t.depth ≤ k := by
      rcases hp with ⟨above, own, below, hentries, rfl, rfl⟩ | ⟨-, hle⟩
      · by_contra hlt
        refine hleft (List.mem_map_of_mem (f := Entry.number) (a := own) ?_)
        rw [Tracked.downTo, hentries, List.length_append, List.length_cons,
          List.drop_append_of_le_length (by omega)]
        exact List.mem_append_right _ List.mem_cons_self
      · rw [h.length_eq] at hle
        omega
    exact expireTimer_idle nodes now hstop hk hle (by omega)

variable [DecidableEq ι]

/-- **What a step keeps.** -/
theorem TrackedStep.sound {s s' : Tracked ι} {e : Event ι} (h : TrackedStep nodes s e s')
    (hrevives : ¬ Revives nodes (s.env, e)) (hs : s.Sound) : s'.Sound := by
  obtain ⟨hstep, heq⟩ := h
  rw [heq]
  cases hstep.timerMove with
  | same hsame hexit hsweep htimed =>
    refine hs.next_same ?_ fun id timer htimer => ?_
    · rw [← length_timerIds, hsame.2, length_timerIds]
    · rwa [Env.getTimer, hsame.1] at htimer
  | @enter node now he henters htimers hids =>
    subst he
    refine hs.next_push ?_ fun id timer htimer hstop => Or.inr ⟨rfl, ?_, fun hscopeid => ?_⟩
    · rw [← length_timerIds, hids, List.length_cons, length_timerIds]
    · rwa [Env.getTimer, htimers] at htimer
    · rw [Env.getTimer, htimers] at htimer
      exact hrevives (Revives.enter htimer hstop hscopeid henters)
  | @enterTimed node other now scope he hnew htimers hids =>
    subst he
    refine hs.next_push ?_ fun id timer htimer hstop => ?_
    · rw [← length_timerIds, hids, List.length_cons, length_timerIds]
    · rw [Env.getTimer, htimers] at htimer
      by_cases hid : other.id = id
      · rw [hid, ExtTreeMap.getElem?_insert_self, Option.some_inj] at htimer
        subst htimer hid
        exact Or.inl ⟨Function.update_self _ _ _, rfl⟩
      · rw [getElem?_insert_of_ne _ hid] at htimer
        exact Or.inr ⟨Function.update_of_ne (Ne.symm hid) _ _, htimer, fun hscopeid =>
          hrevives (Revives.enterTimed htimer hstop hscopeid hnew hid)⟩
  | stay he hscopes hstay htimers hids =>
    refine hs.next_same ?_ fun id timer htimer => ?_
    · rw [← length_timerIds, hids, length_timerIds]
    · rw [Env.getTimer, htimers] at htimer
      exact getElem?_of_checkTimer htimer
  | @leave force now front rest ctrl he hscopes hctrl hleave htimers hids =>
    refine hs.next_pop ?_ fun id timer htimer => ?_
    · rw [← length_timerIds s'.env, hids, Env.depth, hscopes, List.length_cons, timerIds,
        List.length_map]
    · rw [Env.getTimer, htimers] at htimer
      exact getElem?_of_checkTimer htimer
  | sweep he htimers hdepth => exact hs.next_sweep hdepth htimers

/-- **A stop timer ends its own block.** In a run from a new environment in which no scope is
entered at the depth of a stop timer whose scope is gone, every scope that a sweep leaves because of
a stop timer is the one entered with the timer or was entered while that one was on the stack; and
if the timer's scope is gone then the sweep leaves no scope because of it and does not return its
next node. -/
theorem updateTimers_stopsOwnBlock {t : List (Tracked ι × Event ι)} {s : Tracked ι}
    (h : Run (TrackedStep nodes) {} t s) (hsteps : ∀ p ∈ t, ¬ Revives nodes (p.1.env, p.2))
    (now : ℤ) : StopsOwnBlock nodes now s :=
  (h.invariant_of_forall hsteps Tracked.sound_new fun _ _ _ hstep hcond hs =>
    hstep.sound hcond hs).stopsOwnBlock now

end

/-- The state after a call, with its history. -/
def Tracked.after (s : Tracked Unit) (o : Op Unit) (now : ℤ) : Tracked Unit :=
  match (o.call matchNode now).run s.env with
  | .ok _ env => s.next (.call o now) env
  | .error _ env => s.next (.call o now) env

theorem TrackedStep.of_call (s : Tracked Unit) (o : Op Unit) (now : ℤ) {env : Env Unit}
    (h : (o.call matchNode now).run s.env = .ok () env) :
    TrackedStep matchNode s (.call o now) (s.after o now) := by
  rw [Tracked.after, h]
  refine ⟨EventStep.call ?_, ?_⟩
  · rw [Tracked.env_next, h, Prog.after?_ok]
  · rw [Tracked.env_next]

/-- A stop timer with a flag and a node to go on with. -/
def nextTimer : Timer Unit := { lateTimer with nextRuleNode := some () }

/-- A new environment, after a block has been entered with the timer. -/
def ownBlock : Tracked Unit := Tracked.after {} (.enterScopeTimed (some ()) nextTimer) 0

/-- The same, after that block has been left and another entered. -/
def otherBlock : Tracked Unit :=
  (ownBlock.after (.exitScope false) 1).after (.enterScope (some ())) 2

/-- The timer ends the other block, and the rules go on after its own. -/
theorem updateTimers_stops_other_block :
    (∃ t, Run (TrackedStep matchNode) {} t otherBlock) ∧
      (∃ s, (updateTimers matchNode 5).run otherBlock.env = .ok (some ()) s ∧
        otherBlock.env.depth = 2 ∧ s.depth = 1) ∧
      ¬ StopsOwnBlock matchNode 5 otherBlock := by
  have hrun := ((Run.nil.snoc (TrackedStep.of_call {} (.enterScopeTimed (some ()) nextTimer) 0
    rfl)).snoc (TrackedStep.of_call ownBlock (.exitScope false) 1 rfl)).snoc
      (TrackedStep.of_call (ownBlock.after (.exitScope false) 1) (.enterScope (some ())) 2 rfl)
  refine ⟨⟨_, hrun⟩, ⟨_, rfl, rfl, rfl⟩, fun hstops => ?_⟩
  obtain ⟨o, hown, -, hleft⟩ :=
    hstops [] [] 7 { nextTimer with scopeid := 1, expireTime := 3 } (by decide) rfl _ _ rfl
  obtain rfl : 1 = o := Option.some.inj hown
  obtain ⟨s, hturn, -⟩ := hleft (by decide)
  exact absurd (congrArg Prod.fst (EStateM.Result.ok.inj hturn).1) (by decide)

/-- Without the other block, a sweep ends the timer's own. -/
theorem updateTimers_stopsOwnBlock_own : StopsOwnBlock matchNode 5 ownBlock := by
  have hrun := Run.nil.snoc
    (TrackedStep.of_call {} (.enterScopeTimed (some ()) nextTimer) 0 rfl)
  refine updateTimers_stopsOwnBlock hrun (fun p hp => ?_) 5
  obtain rfl := List.mem_singleton.mp hp
  rintro (_ | ⟨htimer, -, -, -, -⟩)
  cases htimer

end SocialGaming
