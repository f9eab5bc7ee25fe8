import Mathlib.Data.List.Nodup
import Mathlib.Data.List.Perm.Basic
import Mathlib.Logic.Relation
import Mathlib.Tactic.Tauto

/-!
# Shared ownership

A count keeps an object alive as long as somebody has a share of it, and an object that is alive has
shares itself. When the last share of a count is given up, its object is deleted, and gives up the
shares it had. An object may have more than one count; then the first that is used up deletes it,
whatever shares of the others there are.

## Design

`drain` is what happens: the shares that have been given up are worked off one after the other. It
fails when an object is deleted that cannot be, or is not there. `Dies` says from the shares before
anything is given up which objects will be deleted.

## Main definitions

* `Sharing` — what a count keeps alive, and who has which shares
* `Sharing.drain` — shares are given up
* `Sharing.Dies`, `Sharing.UsedUp` — the objects that go, and the counts that delete them
* `Sharing.Clean` — everything that goes can be deleted, and only once
* `Sharing.Sole` — no object has a second count
* `Sharing.LeadsTo` — an object is found from another

## Main results

* `Sharing.drain_spec` — what `drain` leaves is what does not die, and it fails exactly when
  something cannot be deleted
* `Sharing.drain_append` — shares may be given up in two turns
* `Sharing.Sole.clean`, `Sharing.Sole.after` — objects without a second count go properly
-/

namespace SocialGaming

/-- What each count keeps alive, which shares each object has, and whether a count may delete its
object. -/
structure Sharing (ν β : Type*) where
  target : β → ν
  shares : ν → List β
  deletes : β → Bool

namespace Sharing

variable {ν β : Type*} (G : Sharing ν β)

/-- Somebody has a share: someone outside, someone who is about to give it up, or an object. -/
def InUse (held pending : List β) (live : List ν) (b : β) : Prop :=
  b ∈ held ∨ b ∈ pending ∨ ∃ n ∈ live, b ∈ G.shares n

instance [DecidableEq β] (held pending : List β) (live : List ν) (b : β) :
    Decidable (G.InUse held pending live b) :=
  inferInstanceAs (Decidable (_ ∨ _ ∨ _))

theorem inUse_cons_iff {held pending : List β} {live : List ν} {b c : β} :
    G.InUse held (b :: pending) live c ↔ c = b ∨ G.InUse held pending live c := by
  rw [InUse, InUse, List.mem_cons]
  tauto

/-- The shares of an object that is deleted are among those that are about to be given up. -/
theorem inUse_erase_iff [DecidableEq ν] {held pending : List β} {live : List ν} {n : ν}
    (hn : n ∈ live) {c : β} :
    G.InUse held (G.shares n ++ pending) (live.erase n) c ↔ G.InUse held pending live c := by
  constructor
  · rintro (hheld | hmem | ⟨m, hm, hshare⟩)
    · exact Or.inl hheld
    · rcases List.mem_append.mp hmem with hshare | hmem
      · exact Or.inr (Or.inr ⟨n, hn, hshare⟩)
      · exact Or.inr (Or.inl hmem)
    · exact Or.inr (Or.inr ⟨m, List.mem_of_mem_erase hm, hshare⟩)
  · rintro (hheld | hmem | ⟨m, hm, hshare⟩)
    · exact Or.inl hheld
    · exact Or.inr (Or.inl (List.mem_append_right _ hmem))
    · by_cases heq : m = n
      · exact Or.inr (Or.inl (List.mem_append_left _ (heq ▸ hshare)))
      · exact Or.inr (Or.inr ⟨m, (List.mem_erase_of_ne heq).mpr hm, hshare⟩)

/-- How many shares there are in the objects and among those that are about to be given up. -/
def total (pending : List β) (live : List ν) : ℕ :=
  pending.length + (live.flatMap G.shares).length

section Drain

variable [DecidableEq ν] [DecidableEq β]

/-- Shares are given up, one after the other. -/
def drain (held : List β) : ℕ → List β → List ν → Option (List ν)
  | _, [], live => some live
  | 0, _ :: _, _ => none
  | fuel + 1, b :: pending, live =>
    if G.InUse held pending live b then drain held fuel pending live
    else if G.deletes b ∧ G.target b ∈ live then
      drain held fuel (G.shares (G.target b) ++ pending) (live.erase (G.target b))
    else none

@[simp] theorem drain_nil (held : List β) (fuel : ℕ) (live : List ν) :
    G.drain held fuel [] live = some live := by
  cases fuel <;> rfl

end Drain

/-! ### What dies -/

variable (held : List β) (live : List ν) (dropped : List β)

/-- The object is deleted when these shares are given up: one of its counts loses a share, and
nobody keeps one who does not go as well. -/
inductive Dies : ν → Prop
  | dropped {b : β} (hb : b ∈ dropped) (hheld : b ∉ held)
      (hall : ∀ m ∈ live, b ∈ G.shares m → Dies m) : Dies (G.target b)
  | cascade {b : β} {n : ν} (hlive : n ∈ live) (hn : Dies n) (hb : b ∈ G.shares n)
      (hheld : b ∉ held) (hall : ∀ m ∈ live, b ∈ G.shares m → Dies m) : Dies (G.target b)

/-- A share of the count is given up. -/
def Given (b : β) : Prop :=
  b ∈ dropped ∨ ∃ n ∈ live, G.Dies held live dropped n ∧ b ∈ G.shares n

/-- The last share of the count is given up. -/
structure UsedUp (b : β) : Prop where
  given : G.Given held live dropped b
  notHeld : b ∉ held
  all : ∀ m ∈ live, b ∈ G.shares m → G.Dies held live dropped m

/-- What is deleted is there, can be deleted, and is deleted by one count only. -/
structure Clean : Prop where
  deletes : ∀ b, G.UsedUp held live dropped b → G.deletes b
  present : ∀ b, G.UsedUp held live dropped b → G.target b ∈ live
  once : ∀ b b', G.UsedUp held live dropped b → G.UsedUp held live dropped b' →
    G.target b = G.target b' → b = b'

variable {G held live dropped}

theorem UsedUp.dies {b : β} (h : G.UsedUp held live dropped b) :
    G.Dies held live dropped (G.target b) := by
  rcases h.given with hb | ⟨n, hlive, hn, hb⟩
  · exact .dropped hb h.notHeld h.all
  · exact .cascade hlive hn hb h.notHeld h.all

theorem Dies.exists_usedUp {n : ν} (h : G.Dies held live dropped n) :
    ∃ b, G.UsedUp held live dropped b ∧ G.target b = n := by
  cases h with
  | dropped hb hheld hall => exact ⟨_, ⟨Or.inl hb, hheld, hall⟩, rfl⟩
  | cascade hlive hn hb hheld hall => exact ⟨_, ⟨Or.inr ⟨_, hlive, hn, hb⟩, hheld, hall⟩, rfl⟩

/-! ### What has been worked off -/

/-- What holds while the shares are worked off: these counts have been used up, these shares are
about to be given up, and these objects are left. -/
structure Draining (G : Sharing ν β) (held : List β) (live : List ν) (dropped gone pending : List β)
    (left : List ν) : Prop where
  nodup : left.Nodup
  mem_left : ∀ n, n ∈ left ↔ n ∈ live ∧ ∀ b ∈ gone, G.target b ≠ n
  usedUp : ∀ b ∈ gone, G.UsedUp held live dropped b
  deletes : ∀ b ∈ gone, G.deletes b
  present : ∀ b ∈ gone, G.target b ∈ live
  once : ∀ b ∈ gone, ∀ b' ∈ gone, G.target b = G.target b' → b = b'
  unused : ∀ b ∈ gone, ¬ G.InUse held pending left b
  waiting : ∀ b ∈ pending, G.Given held live dropped b
  given : ∀ b, (b ∈ dropped ∨ ∃ e ∈ gone, b ∈ G.shares (G.target e)) →
    G.InUse held pending left b ∨ b ∈ gone

namespace Draining

variable {gone pending : List β} {left : List ν} {b : β}

theorem start (hnodup : live.Nodup) : Draining G held live dropped [] dropped live where
  nodup := hnodup
  mem_left n := ⟨fun hn => ⟨hn, fun b hb => absurd hb List.not_mem_nil⟩, And.left⟩
  usedUp := List.forall_mem_nil _
  deletes := List.forall_mem_nil _
  present := List.forall_mem_nil _
  once := List.forall_mem_nil _
  unused := List.forall_mem_nil _
  waiting b hb := Or.inl hb
  given b hb := by
    rcases hb with hb | ⟨e, he, -⟩
    · exact Or.inl (Or.inr (Or.inl hb))
    · exact absurd he List.not_mem_nil

/-- An object that is gone was deleted by a count that is used up. -/
theorem exists_gone (h : Draining G held live dropped gone pending left) {n : ν} (hn : n ∈ live)
    (hleft : n ∉ left) : ∃ b ∈ gone, G.target b = n := by
  by_contra hnone
  push Not at hnone
  exact hleft ((h.mem_left n).mpr ⟨hn, hnone⟩)

/-- **The next share is the last of its count.** -/
theorem usedUp_next (h : Draining G held live dropped gone (b :: pending) left)
    (hunused : ¬ G.InUse held pending left b) : G.UsedUp held live dropped b where
  given := h.waiting b List.mem_cons_self
  notHeld hheld := hunused (Or.inl hheld)
  all m hm hb := by
    have hleft : m ∉ left := fun hmem => hunused (Or.inr (Or.inr ⟨m, hmem, hb⟩))
    obtain ⟨e, he, rfl⟩ := h.exists_gone hm hleft
    exact (h.usedUp e he).dies

/-- The next share is not the last one of its count. -/
theorem skip (h : Draining G held live dropped gone (b :: pending) left)
    (hused : G.InUse held pending left b) : Draining G held live dropped gone pending left where
  nodup := h.nodup
  mem_left := h.mem_left
  usedUp := h.usedUp
  deletes := h.deletes
  present := h.present
  once := h.once
  unused e he huse := h.unused e he (G.inUse_cons_iff.mpr (Or.inr huse))
  waiting c hc := h.waiting c (List.mem_cons_of_mem b hc)
  given c hc := by
    refine (h.given c hc).imp_left fun huse => ?_
    rcases G.inUse_cons_iff.mp huse with rfl | huse
    · exact hused
    · exact huse

/-- **The next share is the last one**, and the object is deleted. -/
theorem delete [DecidableEq ν] (h : Draining G held live dropped gone (b :: pending) left)
    (hunused : ¬ G.InUse held pending left b) (hdeletes : G.deletes b)
    (htarget : G.target b ∈ left) :
    Draining G held live dropped (b :: gone) (G.shares (G.target b) ++ pending)
      (left.erase (G.target b)) := by
  have husedUp := h.usedUp_next hunused
  have hlive : G.target b ∈ live := ((h.mem_left _).mp htarget).1
  have hother : ∀ e ∈ gone, G.target e ≠ G.target b := ((h.mem_left _).mp htarget).2
  constructor
  case nodup => exact h.nodup.erase _
  case mem_left =>
    intro n
    rw [h.nodup.mem_erase_iff, h.mem_left, List.forall_mem_cons]
    constructor
    · rintro ⟨hne, hn, hall⟩
      exact ⟨hn, hne.symm, hall⟩
    · rintro ⟨hn, hne, hall⟩
      exact ⟨hne.symm, hn, hall⟩
  case usedUp => exact List.forall_mem_cons.mpr ⟨husedUp, h.usedUp⟩
  case deletes => exact List.forall_mem_cons.mpr ⟨hdeletes, h.deletes⟩
  case present => exact List.forall_mem_cons.mpr ⟨hlive, h.present⟩
  case once =>
    intro e he e' he' heq
    rcases List.mem_cons.mp he with rfl | hgone
    · rcases List.mem_cons.mp he' with rfl | hgone'
      · rfl
      · exact absurd heq.symm (hother e' hgone')
    · rcases List.mem_cons.mp he' with rfl | hgone'
      · exact absurd heq (hother e hgone)
      · exact h.once e hgone e' hgone' heq
  case unused =>
    intro e he huse
    rw [G.inUse_erase_iff htarget] at huse
    rcases List.mem_cons.mp he with rfl | he
    · exact hunused huse
    · exact h.unused e he (G.inUse_cons_iff.mpr (Or.inr huse))
  case waiting =>
    intro c hc
    rcases List.mem_append.mp hc with hshare | hc
    · exact Or.inr ⟨_, hlive, husedUp.dies, hshare⟩
    · exact h.waiting c (List.mem_cons_of_mem b hc)
  case given =>
    intro c hc
    -- it was one of the shares before, or it is one of those that the object had
    have hcases : (G.InUse held (b :: pending) left c ∨ c ∈ gone) ∨ c ∈ G.shares (G.target b) := by
      rcases hc with hc | ⟨e, he, hshare⟩
      · exact Or.inl (h.given c (Or.inl hc))
      · rcases List.mem_cons.mp he with rfl | he
        · exact Or.inr hshare
        · exact Or.inl (h.given c (Or.inr ⟨e, he, hshare⟩))
    rw [G.inUse_erase_iff htarget, List.mem_cons]
    rcases hcases with (huse | hgone) | hshare
    · rcases G.inUse_cons_iff.mp huse with rfl | huse
      · exact Or.inr (Or.inl rfl)
      · exact Or.inl huse
    · exact Or.inr (Or.inr hgone)
    · exact Or.inl (Or.inr (Or.inr ⟨_, htarget, hshare⟩))

/-- **Nothing is left to be given up**: everything that dies is gone. -/
theorem gone_of_usedUp (h : Draining G held live dropped gone [] left) :
    ∀ b, G.UsedUp held live dropped b → b ∈ gone := by
  -- a count of which a share was given up, all of whose sharers are gone
  have hcount : ∀ b, (b ∈ dropped ∨ ∃ e ∈ gone, b ∈ G.shares (G.target e)) → b ∉ held →
      (∀ m ∈ live, b ∈ G.shares m → ∃ e ∈ gone, G.target e = m) → b ∈ gone := by
    intro b hgiven hheld hall
    refine (h.given b hgiven).resolve_left ?_
    rintro (hmem | hmem | ⟨n, hn, hshare⟩)
    · exact hheld hmem
    · exact absurd hmem List.not_mem_nil
    · obtain ⟨hlive, hnone⟩ := (h.mem_left n).mp hn
      obtain ⟨e, he, heq⟩ := hall n hlive hshare
      exact hnone e he heq
  have hdies : ∀ n, G.Dies held live dropped n → ∃ e ∈ gone, G.target e = n := by
    intro n hn
    induction hn with
    | dropped hb hheld hall ih => exact ⟨_, hcount _ (Or.inl hb) hheld ih, rfl⟩
    | cascade hlive hn hb hheld hall ihn ih =>
      obtain ⟨e, he, rfl⟩ := ihn
      exact ⟨_, hcount _ (Or.inr ⟨e, he, hb⟩) hheld ih, rfl⟩
  intro b hb
  refine hcount b ?_ hb.notHeld fun m hm hshare => hdies m (hb.all m hm hshare)
  rcases hb.given with hdropped | ⟨n, hlive, hn, hshare⟩
  · exact Or.inl hdropped
  · obtain ⟨e, he, rfl⟩ := hdies n hn
    exact Or.inr ⟨e, he, hshare⟩

theorem clean (h : Draining G held live dropped gone [] left) : G.Clean held live dropped where
  deletes b hb := h.deletes b (h.gone_of_usedUp b hb)
  present b hb := h.present b (h.gone_of_usedUp b hb)
  once b b' hb hb' := h.once b (h.gone_of_usedUp b hb) b' (h.gone_of_usedUp b' hb')

theorem mem_left_iff (h : Draining G held live dropped gone [] left) (n : ν) :
    n ∈ left ↔ n ∈ live ∧ ¬ G.Dies held live dropped n := by
  rw [h.mem_left n]
  refine and_congr_right fun hlive => ⟨fun hnone hn => ?_, fun hn b hb heq => ?_⟩
  · obtain ⟨b, hb, heq⟩ := hn.exists_usedUp
    exact hnone b (h.gone_of_usedUp b hb) heq
  · exact hn (heq ▸ (h.usedUp b hb).dies)

/-- **The next share cannot be given up.** -/
theorem not_clean (h : Draining G held live dropped gone (b :: pending) left)
    (hunused : ¬ G.InUse held pending left b)
    (hfails : ¬ (G.deletes b = true ∧ G.target b ∈ left)) : ¬ G.Clean held live dropped := by
  intro hclean
  have husedUp := h.usedUp_next hunused
  refine hfails ⟨hclean.deletes b husedUp, ?_⟩
  by_contra hleft
  obtain ⟨e, he, heq⟩ := h.exists_gone (hclean.present b husedUp) hleft
  obtain rfl := hclean.once e b (h.usedUp e he) husedUp heq
  exact h.unused e he (Or.inr (Or.inl List.mem_cons_self))

end Draining

/-! ### The whole of it -/

theorem total_erase [DecidableEq ν] {n : ν} {left : List ν} (hn : n ∈ left) (pending : List β) :
    G.total (G.shares n ++ pending) (left.erase n) = G.total pending left := by
  have hperm := ((List.perm_cons_erase hn).flatMap_right G.shares).length_eq
  rw [List.flatMap_cons, List.length_append] at hperm
  rw [total, total, List.length_append, hperm]
  omega

variable [DecidableEq ν] [DecidableEq β]

theorem drain_of_draining {fuel : ℕ} {gone pending : List β} {left : List ν}
    (h : Draining G held live dropped gone pending left) (hfuel : G.total pending left ≤ fuel) :
    (∃ rest, G.drain held fuel pending left = some rest ∧ G.Clean held live dropped ∧
      rest.Nodup ∧ ∀ n, n ∈ rest ↔ n ∈ live ∧ ¬ G.Dies held live dropped n) ∨
    (G.drain held fuel pending left = none ∧ ¬ G.Clean held live dropped) := by
  induction fuel generalizing gone pending left with
  | zero =>
    cases pending with
    | nil => exact Or.inl ⟨left, rfl, h.clean, h.nodup, h.mem_left_iff⟩
    | cons b pending => simp [total] at hfuel
  | succ fuel ih =>
    cases pending with
    | nil => exact Or.inl ⟨left, rfl, h.clean, h.nodup, h.mem_left_iff⟩
    | cons b pending =>
      have hless : G.total pending left ≤ fuel := by
        rw [total, List.length_cons] at hfuel
        rw [total]
        omega
      rw [drain]
      by_cases hused : G.InUse held pending left b
      · rw [if_pos hused]
        exact ih (h.skip hused) hless
      · rw [if_neg hused]
        by_cases hcan : G.deletes b = true ∧ G.target b ∈ left
        · rw [if_pos hcan]
          exact ih (h.delete hused hcan.1 hcan.2) ((total_erase hcan.2 pending).symm ▸ hless)
        · rw [if_neg hcan]
          exact Or.inr ⟨rfl, h.not_clean hused hcan⟩

variable (G held dropped) in
/-- **Giving up shares.** It succeeds if and only if what dies can be deleted, and leaves what does
not die. -/
theorem drain_spec (hnodup : live.Nodup) :
    (∃ rest, G.drain held (G.total dropped live) dropped live = some rest ∧
      G.Clean held live dropped ∧ rest.Nodup ∧
      ∀ n, n ∈ rest ↔ n ∈ live ∧ ¬ G.Dies held live dropped n) ∨
    (G.drain held (G.total dropped live) dropped live = none ∧ ¬ G.Clean held live dropped) :=
  drain_of_draining (Draining.start hnodup) (Nat.le_refl _)

/-! ### In two turns -/

variable (G held) in
/-- Shares that are kept at first are given up when the others have been. -/
theorem drain_append (b : List β) (fuel : ℕ) (a : List β) (live : List ν)
    (hfuel : G.total a live ≤ fuel) :
    G.drain held (G.total (a ++ b) live) (a ++ b) live
      = (G.drain (b ++ held) fuel a live).bind fun left =>
        G.drain held (G.total b left) b left := by
  induction fuel generalizing a live with
  | zero =>
    cases a with
    | nil => rw [List.nil_append, drain_nil, Option.bind_some]
    | cons c a => simp [total] at hfuel
  | succ fuel ih =>
    cases a with
    | nil => rw [List.nil_append, drain_nil, Option.bind_some]
    | cons c a =>
      have hless : G.total a live ≤ fuel := by
        rw [total, List.length_cons] at hfuel
        rw [total]
        omega
      have hused : G.InUse held (a ++ b) live c ↔ G.InUse (b ++ held) a live c := by
        simp only [InUse, List.mem_append]
        tauto
      have htotal : G.total (c :: a ++ b) live = G.total (a ++ b) live + 1 := by
        simp only [total, List.cons_append, List.length_cons]
        omega
      rw [htotal, List.cons_append, drain, drain]
      by_cases huse : G.InUse (b ++ held) a live c
      · rw [if_pos huse, if_pos (hused.mpr huse)]
        exact ih a live hless
      · rw [if_neg huse, if_neg (hused.not.mpr huse)]
        split
        · next hcan =>
          have hsame := total_erase (G := G) hcan.2 (a ++ b)
          rw [← List.append_assoc] at hsame ⊢
          rw [← hsame]
          exact ih _ _ ((total_erase hcan.2 a).symm ▸ hless)
        · rfl

omit [DecidableEq ν] [DecidableEq β]

/-- The object is found from another, by the shares that objects have. -/
def LeadsTo (G : Sharing ν β) : ν → ν → Prop :=
  Relation.ReflTransGen fun m n => ∃ b ∈ G.shares m, G.target b = n

/-! ### One count for each object -/

/-- Each count of which somebody has a share has an object of its own, which is there and which it
can delete. -/
structure Sole (G : Sharing ν β) (held pending : List β) (live : List ν) : Prop where
  present : ∀ b, G.InUse held pending live b → G.target b ∈ live
  deletes : ∀ b, G.InUse held pending live b → G.deletes b
  once : ∀ b b', G.InUse held pending live b → G.InUse held pending live b' →
    G.target b = G.target b' → b = b'

theorem UsedUp.inUse {b : β} (h : G.UsedUp held live dropped b) : G.InUse held dropped live b := by
  rcases h.given with hdropped | ⟨n, hlive, -, hshare⟩
  · exact Or.inr (Or.inl hdropped)
  · exact Or.inr (Or.inr ⟨n, hlive, hshare⟩)

/-- An object without a count stays. -/
theorem not_dies_of_unowned {n : ν} (h : ∀ b, G.InUse held dropped live b → G.target b ≠ n) :
    ¬ G.Dies held live dropped n := by
  intro hdies
  obtain ⟨b, hb, heq⟩ := hdies.exists_usedUp
  exact h b hb.inUse heq

namespace Sole

variable {rest : List ν}

/-- Then whatever is given up can be deleted. -/
theorem clean (h : Sole G held dropped live) : G.Clean held live dropped where
  deletes b hb := h.deletes b hb.inUse
  present b hb := h.present b hb.inUse
  once b b' hb hb' := h.once b b' hb.inUse hb'.inUse

/-- An object stays as long as somebody has a share of its count. -/
theorem not_dies (h : Sole G held dropped live) {b : β}
    (hb : b ∈ held ∨ ∃ n ∈ live, ¬ G.Dies held live dropped n ∧ b ∈ G.shares n) :
    ¬ G.Dies held live dropped (G.target b) := by
  intro hdies
  have hused : G.InUse held dropped live b := by
    rcases hb with hheld | ⟨n, hlive, -, hshare⟩
    · exact Or.inl hheld
    · exact Or.inr (Or.inr ⟨n, hlive, hshare⟩)
  obtain ⟨b', hb', heq⟩ := hdies.exists_usedUp
  obtain rfl := h.once b' b hb'.inUse hused heq
  rcases hb with hheld | ⟨n, hlive, hn, hshare⟩
  · exact hb'.notHeld hheld
  · exact hn (hb'.all n hlive hshare)

/-- What is found from an object that stays is there, and stays. -/
theorem not_dies_of_leadsTo (h : Sole G held dropped live) {m n : ν} (hm : m ∈ live)
    (hstays : ¬ G.Dies held live dropped m) (hlead : G.LeadsTo m n) :
    n ∈ live ∧ ¬ G.Dies held live dropped n := by
  induction hlead with
  | refl => exact ⟨hm, hstays⟩
  | tail hlead hshare ih =>
    obtain ⟨b, hb, rfl⟩ := hshare
    exact ⟨h.present b (Or.inr (Or.inr ⟨_, ih.1, hb⟩)), h.not_dies (Or.inr ⟨_, ih.1, ih.2, hb⟩)⟩

/-- **Afterwards** each count has its own object again. -/
theorem after (h : Sole G held dropped live)
    (hrest : ∀ n, n ∈ rest ↔ n ∈ live ∧ ¬ G.Dies held live dropped n) : Sole G held [] rest := by
  have hbefore : ∀ b, G.InUse held [] rest b → G.InUse held dropped live b ∧
      ¬ G.Dies held live dropped (G.target b) := by
    rintro b (hheld | hmem | ⟨n, hn, hshare⟩)
    · exact ⟨Or.inl hheld, h.not_dies (Or.inl hheld)⟩
    · exact absurd hmem List.not_mem_nil
    · obtain ⟨hlive, hstays⟩ := (hrest n).mp hn
      exact ⟨Or.inr (Or.inr ⟨n, hlive, hshare⟩), h.not_dies (Or.inr ⟨n, hlive, hstays, hshare⟩)⟩
  refine ⟨fun b hb => ?_, fun b hb => h.deletes b (hbefore b hb).1,
    fun b b' hb hb' => h.once b b' (hbefore b hb).1 (hbefore b' hb').1⟩
  exact (hrest _).mpr ⟨h.present b (hbefore b hb).1, (hbefore b hb).2⟩

end Sole

end Sharing

end SocialGaming
