import SocialGaming.Library.SharedOwnership

/-!
# A new share

An object that is there gets the only share of a new count. The count belongs to an object that was
there, or to a new one, which has shares itself. Then other shares are given up. What dies can be
told from the shares before: it is what would die without the new share, if the shares of the new
object were kept, as long as the object with the new share does not die.

## Main definitions

* `NewShare` — an object has got the only share of a new count
* `NewShare.Brought` — what the new share leads to

## Main results

* `NewShare.dies_iff`, `NewShare.clean_iff` — what dies, and whether it can be deleted
* `NewShare.leadsTo_iff` — what is found afterwards
* `NewShare.kept_iff` — when everything is still there that the object with the new share leads to
* `NewShare.found_of_sole` — without second counts it is
-/

namespace SocialGaming

variable {ν β : Type*}

/-- From `G` to `G'`, the object `owner` has got the only share of the count `new`, which belongs to
`made`. If `made` is a new object, it has the shares `kept`, and it may be an owner as well. -/
structure NewShare (G G' : Sharing ν β) (kept : List β) (live live' : List ν) (new : β)
    (owner made : ν) : Prop where
  target : ∀ b, b ≠ new → G'.target b = G.target b
  deletes : ∀ b, b ≠ new → G'.deletes b = G.deletes b
  target_new : G'.target new = made
  shares : ∀ n ∈ live, ∀ b, b ≠ new → (b ∈ G'.shares n ↔ b ∈ G.shares n)
  unshared : ∀ n ∈ live, new ∉ G.shares n
  owner_mem : owner ∈ live
  owns : new ∈ G'.shares owner
  mem_live' : ∀ n, n ∈ live' ↔ n ∈ live ∨ n = made
  /-- A new object has shares, and no old count belongs to it. -/
  shares_made : made ∉ live → ∀ b, b ≠ new → (b ∈ G'.shares made ↔ b ∈ kept)
  old : made ∉ live → ∀ b, b ≠ new → G.target b ≠ made
  /-- An object that was there is given nothing. -/
  kept_nil : made ∈ live → kept = []
  notKept : new ∉ kept

namespace NewShare

variable {G G' : Sharing ν β} {held kept : List β} {live live' : List ν} {dropped : List β}
  {new : β} {owner made : ν}

/-- The shares of counts of which nothing is kept are those that there were. -/
theorem shares_iff (h : NewShare G G' kept live live' new owner made) {b : β} (hb : b ≠ new)
    (hkept : b ∉ kept) (n : ν) : n ∈ live' ∧ b ∈ G'.shares n ↔ n ∈ live ∧ b ∈ G.shares n := by
  rw [h.mem_live' n]
  constructor
  · rintro ⟨hlive, hshare⟩
    by_cases hn : n ∈ live
    · exact ⟨hn, (h.shares n hn b hb).mp hshare⟩
    · obtain rfl := hlive.resolve_left hn
      exact absurd ((h.shares_made hn b hb).mp hshare) hkept
  · rintro ⟨hn, hshare⟩
    exact ⟨Or.inl hn, (h.shares n hn b hb).mpr hshare⟩

theorem shares_of_mem (h : NewShare G G' kept live live' new owner made) {b : β} {n : ν}
    (hn : n ∈ live) (hb : b ∈ G.shares n) : b ≠ new ∧ n ∈ live' ∧ b ∈ G'.shares n := by
  have hne : b ≠ new := by
    rintro rfl
    exact h.unshared n hn hb
  exact ⟨hne, (h.mem_live' n).mpr (Or.inl hn), (h.shares n hn b hne).mpr hb⟩

/-! ### What dies -/

theorem dies_of_dies (h : NewShare G G' kept live live' new owner made) (hnew : new ∉ dropped)
    {n : ν} (hn : G.Dies (held ++ kept) live dropped n) : G'.Dies held live' dropped n := by
  induction hn with
  | @dropped b hb hheld hall ih =>
    have hne : b ≠ new := by
      rintro rfl
      exact hnew hb
    rw [List.mem_append, not_or] at hheld
    rw [← h.target b hne]
    refine .dropped hb hheld.1 fun m hm hshare => ?_
    obtain ⟨hlive, hbefore⟩ := (h.shares_iff hne hheld.2 m).mp ⟨hm, hshare⟩
    exact ih m hlive hbefore
  | @cascade b n hlive hn hb hheld hall ihn ih =>
    obtain ⟨hne, hlive', hb'⟩ := h.shares_of_mem hlive hb
    rw [List.mem_append, not_or] at hheld
    rw [← h.target b hne]
    refine .cascade hlive' ihn hb' hheld.1 fun m hm hshare => ?_
    obtain ⟨hmlive, hbefore⟩ := (h.shares_iff hne hheld.2 m).mp ⟨hm, hshare⟩
    exact ih m hmlive hbefore

theorem usedUp_ne (h : NewShare G G' kept live live' new owner made) (hnew : new ∉ dropped)
    {held : List β} {b : β} (hb : G.UsedUp held live dropped b) : b ≠ new := by
  rintro rfl
  rcases hb.given with hdropped | ⟨n, hlive, -, hshare⟩
  · exact hnew hdropped
  · exact h.unshared n hlive hshare

/-- A new object does not die by an old count. -/
theorem not_dies_made (h : NewShare G G' kept live live' new owner made) (hnew : new ∉ dropped)
    {held : List β} (hmade : made ∉ live) : ¬ G.Dies held live dropped made := by
  intro hdies
  obtain ⟨b, hb, heq⟩ := hdies.exists_usedUp
  exact h.old hmade b (h.usedUp_ne hnew hb) heq

/-- As long as the owner stays, its new share is not given up, nor are those of a new object. -/
theorem dies_of_dies_after (h : NewShare G G' kept live live' new owner made)
    (hnew : new ∉ dropped) (howner : ¬ G.Dies (held ++ kept) live dropped owner) {n : ν}
    (hn : G'.Dies held live' dropped n) : G.Dies (held ++ kept) live dropped n := by
  have howner' : owner ∈ live' := (h.mem_live' owner).mpr (Or.inl h.owner_mem)
  -- a count that loses its last share is old, and nothing keeps it
  have hold : ∀ b, b ∉ held → (b = new → G.Dies (held ++ kept) live dropped owner) →
      (∀ m ∈ live', b ∈ G'.shares m → G.Dies (held ++ kept) live dropped m) →
      b ≠ new ∧ b ∉ kept := by
    intro b hheld hfirst hall
    have hne : b ≠ new := fun heq => howner (hfirst heq)
    refine ⟨hne, fun hkept => ?_⟩
    by_cases hmade : made ∈ live
    · rw [h.kept_nil hmade] at hkept
      cases hkept
    · have hlive' := (h.mem_live' made).mpr (Or.inr rfl)
      exact h.not_dies_made hnew hmade (hall made hlive' ((h.shares_made hmade b hne).mpr hkept))
  induction hn with
  | @dropped b hb hheld hall ih =>
    obtain ⟨hne, hkept⟩ := hold b hheld (fun heq => ih owner howner' (heq ▸ h.owns)) ih
    rw [h.target b hne]
    refine .dropped hb (by simp [hheld, hkept]) fun m hm hshare => ?_
    obtain ⟨hlive', hafter⟩ := (h.shares_iff hne hkept m).mpr ⟨hm, hshare⟩
    exact ih m hlive' hafter
  | @cascade b n hlive' hn hb hheld hall ihn ih =>
    obtain ⟨hne, hkept⟩ := hold b hheld (fun heq => ih owner howner' (heq ▸ h.owns)) ih
    obtain ⟨hlive, hb'⟩ := (h.shares_iff hne hkept n).mp ⟨hlive', hb⟩
    rw [h.target b hne]
    refine .cascade hlive ihn hb' (by simp [hheld, hkept]) fun m hm hshare => ?_
    obtain ⟨hmlive', hafter⟩ := (h.shares_iff hne hkept m).mpr ⟨hm, hshare⟩
    exact ih m hmlive' hafter

/-- **What dies** is what would die without the new share. -/
theorem dies_iff (h : NewShare G G' kept live live' new owner made) (hnew : new ∉ dropped)
    (howner : ¬ G.Dies (held ++ kept) live dropped owner) (n : ν) :
    G'.Dies held live' dropped n ↔ G.Dies (held ++ kept) live dropped n :=
  ⟨h.dies_of_dies_after hnew howner, h.dies_of_dies hnew⟩

theorem dies_owner_iff (h : NewShare G G' kept live live' new owner made) (hnew : new ∉ dropped) :
    G'.Dies held live' dropped owner ↔ G.Dies (held ++ kept) live dropped owner := by
  refine ⟨fun hdies => ?_, h.dies_of_dies hnew⟩
  by_contra howner
  exact howner (h.dies_of_dies_after hnew howner hdies)

theorem usedUp_of_usedUp (h : NewShare G G' kept live live' new owner made) (hnew : new ∉ dropped)
    {b : β} (hb : G.UsedUp (held ++ kept) live dropped b) : G'.UsedUp held live' dropped b := by
  have hne := h.usedUp_ne hnew hb
  obtain ⟨hgiven, hheld, hall⟩ := hb
  rw [List.mem_append, not_or] at hheld
  refine ⟨hgiven.imp_right ?_, hheld.1, fun m hm hshare => ?_⟩
  · rintro ⟨n, hlive, hn, hshare⟩
    obtain ⟨-, hlive', hshare'⟩ := h.shares_of_mem hlive hshare
    exact ⟨n, hlive', h.dies_of_dies hnew hn, hshare'⟩
  · obtain ⟨hlive, hbefore⟩ := (h.shares_iff hne hheld.2 m).mp ⟨hm, hshare⟩
    exact h.dies_of_dies hnew (hall m hlive hbefore)

theorem usedUp_of_usedUp_after (h : NewShare G G' kept live live' new owner made)
    (hnew : new ∉ dropped) (howner : ¬ G.Dies (held ++ kept) live dropped owner) {b : β}
    (hb : G'.UsedUp held live' dropped b) : G.UsedUp (held ++ kept) live dropped b := by
  have hafter := fun n => h.dies_of_dies_after (n := n) hnew howner
  obtain ⟨hgiven, hheld, hall⟩ := hb
  have hne : b ≠ new := by
    rintro rfl
    have howner' : owner ∈ live' := (h.mem_live' owner).mpr (Or.inl h.owner_mem)
    exact howner (hafter owner (hall owner howner' h.owns))
  have hkept : b ∉ kept := by
    intro hkept
    by_cases hmade : made ∈ live
    · rw [h.kept_nil hmade] at hkept
      cases hkept
    · have hlive' := (h.mem_live' made).mpr (Or.inr rfl)
      exact h.not_dies_made hnew hmade
        (hafter made (hall made hlive' ((h.shares_made hmade b hne).mpr hkept)))
  refine ⟨hgiven.imp_right ?_, by simp [hheld, hkept], fun m hm hshare => ?_⟩
  · rintro ⟨n, hlive', hn, hshare⟩
    obtain ⟨hlive, hbefore⟩ := (h.shares_iff hne hkept n).mp ⟨hlive', hshare⟩
    exact ⟨n, hlive, hafter n hn, hbefore⟩
  · obtain ⟨hlive', hshare'⟩ := (h.shares_iff hne hkept m).mpr ⟨hm, hshare⟩
    exact hafter m (hall m hlive' hshare')

/-- **Whether what dies can be deleted.** -/
theorem clean_iff (h : NewShare G G' kept live live' new owner made) (hnew : new ∉ dropped)
    (howner : ¬ G.Dies (held ++ kept) live dropped owner) :
    G'.Clean held live' dropped ↔ G.Clean (held ++ kept) live dropped := by
  have hpresent : ∀ b, b ≠ new → (G'.target b ∈ live' ↔ G.target b ∈ live) := by
    intro b hne
    rw [h.target b hne, h.mem_live']
    refine or_iff_left_of_imp fun heq => ?_
    by_contra hmade
    rw [heq] at hmade
    exact h.old hmade b hne heq
  constructor
  · intro hclean
    refine ⟨fun b hb => ?_, fun b hb => ?_, fun b b' hb hb' heq => ?_⟩
    · rw [← h.deletes b (h.usedUp_ne hnew hb)]
      exact hclean.deletes b (h.usedUp_of_usedUp hnew hb)
    · exact (hpresent b (h.usedUp_ne hnew hb)).mp
        (hclean.present b (h.usedUp_of_usedUp hnew hb))
    · refine hclean.once b b' (h.usedUp_of_usedUp hnew hb) (h.usedUp_of_usedUp hnew hb') ?_
      rw [h.target b (h.usedUp_ne hnew hb), h.target b' (h.usedUp_ne hnew hb'), heq]
  · intro hclean
    have hbefore : ∀ b, G'.UsedUp held live' dropped b →
        G.UsedUp (held ++ kept) live dropped b ∧ b ≠ new := by
      intro b hb
      have husedUp := h.usedUp_of_usedUp_after hnew howner hb
      exact ⟨husedUp, h.usedUp_ne hnew husedUp⟩
    refine ⟨fun b hb => ?_, fun b hb => ?_, fun b b' hb hb' heq => ?_⟩
    · rw [h.deletes b (hbefore b hb).2]
      exact hclean.deletes b (hbefore b hb).1
    · exact (hpresent b (hbefore b hb).2).mpr (hclean.present b (hbefore b hb).1)
    · refine hclean.once b b' (hbefore b hb).1 (hbefore b' hb').1 ?_
      rw [← h.target b (hbefore b hb).2, ← h.target b' (hbefore b' hb').2, heq]

/-! ### What is found -/

/-- The new share brings an object that was there, or those of which a new object has shares. -/
def Brought (G : Sharing ν β) (kept : List β) (live : List ν) (made r : ν) : Prop :=
  (made ∈ live ∧ r = made) ∨ ∃ b ∈ kept, G.target b = r

/-- The object is found from the owner, or from what the new share brings. -/
def Found (G : Sharing ν β) (kept : List β) (live : List ν) (owner made n : ν) : Prop :=
  G.LeadsTo owner n ∨ ∃ r, Brought G kept live made r ∧ G.LeadsTo r n

theorem Found.tail {n : ν} {b : β} (h : Found G kept live owner made n) (hb : b ∈ G.shares n) :
    Found G kept live owner made (G.target b) := by
  rcases h with hn | ⟨r, hr, hn⟩
  · exact Or.inl (hn.tail ⟨b, hb, rfl⟩)
  · exact Or.inr ⟨r, hr, hn.tail ⟨b, hb, rfl⟩⟩

/-- **What is found afterwards** is the object of the new share, and what was found before, or is
brought. -/
theorem leadsTo_iff (h : NewShare G G' kept live live' new owner made)
    (hthere : ∀ n, Found G kept live owner made n → n ∈ live) (n : ν) :
    G'.LeadsTo owner n ↔ n = made ∨ Found G kept live owner made n := by
  have hmade : G'.LeadsTo owner made := .single ⟨new, h.owns, h.target_new⟩
  have hstep : ∀ {m b}, m ∈ live → b ∈ G.shares m → G'.LeadsTo owner m →
      G'.LeadsTo owner (G.target b) := by
    intro m b hm hb hlead
    obtain ⟨hne, -, hb'⟩ := h.shares_of_mem hm hb
    exact hlead.tail ⟨b, hb', h.target b hne⟩
  constructor
  · intro hlead
    induction hlead with
    | refl => exact Or.inr (Or.inl .refl)
    | @tail m k hlead hshare ih =>
      obtain ⟨b, hb, rfl⟩ := hshare
      by_cases hne : b = new
      · exact Or.inl (hne ▸ h.target_new)
      rw [h.target b hne]
      by_cases hm : m ∈ live
      · refine Or.inr (Found.tail ?_ ((h.shares m hm b hne).mp hb))
        rcases ih with rfl | hfound
        · exact Or.inr ⟨m, Or.inl ⟨hm, rfl⟩, .refl⟩
        · exact hfound
      · rcases ih with rfl | hfound
        · exact Or.inr (Or.inr ⟨_, Or.inr ⟨b, (h.shares_made hm b hne).mp hb, rfl⟩, .refl⟩)
        · exact absurd (hthere m hfound) hm
  · rintro (rfl | hlead | ⟨r, hr, hlead⟩)
    · exact hmade
    · induction hlead with
      | refl => exact .refl
      | tail hlead hshare ih =>
        obtain ⟨b, hb, rfl⟩ := hshare
        exact hstep (hthere _ (Or.inl hlead)) hb ih
    · induction hlead with
      | refl =>
        rcases hr with ⟨-, rfl⟩ | ⟨b, hb, rfl⟩
        · exact hmade
        · have hlive : made ∉ live := by
            intro hlive
            rw [h.kept_nil hlive] at hb
            cases hb
          have hne : b ≠ new := by
            rintro rfl
            exact h.notKept hb
          exact hmade.tail ⟨b, (h.shares_made hlive b hne).mpr hb, h.target b hne⟩
      | tail hlead hshare ih =>
        obtain ⟨b, hb, rfl⟩ := hshare
        exact hstep (hthere _ (Or.inr ⟨r, hr, hlead⟩)) hb ih

variable (held) in
/-- **When everything is still there.** What dies can be deleted, and everything that the owner
leads to afterwards is still there, if and only if that can be told from the shares before. -/
theorem kept_iff (h : NewShare G G' kept live live' new owner made) (hnew : new ∉ dropped)
    (hthere : ∀ n, Found G kept live owner made n → n ∈ live) :
    (G'.Clean held live' dropped ∧
      ∀ n, G'.LeadsTo owner n → n ∈ live' ∧ ¬ G'.Dies held live' dropped n) ↔
    (G.Clean (held ++ kept) live dropped ∧
      ∀ n, Found G kept live owner made n → ¬ G.Dies (held ++ kept) live dropped n) := by
  constructor
  · rintro ⟨hclean, hstays⟩
    have howner : ¬ G.Dies (held ++ kept) live dropped owner :=
      (h.dies_owner_iff hnew).not.mp (hstays owner .refl).2
    refine ⟨(h.clean_iff hnew howner).mp hclean, fun n hn hdies => ?_⟩
    exact (hstays n ((h.leadsTo_iff hthere n).mpr (Or.inr hn))).2 (h.dies_of_dies hnew hdies)
  · rintro ⟨hclean, hstays⟩
    have howner : ¬ G.Dies (held ++ kept) live dropped owner := hstays owner (Or.inl .refl)
    refine ⟨(h.clean_iff hnew howner).mpr hclean, fun n hn => ?_⟩
    rw [h.dies_iff hnew howner, h.mem_live']
    rcases (h.leadsTo_iff hthere n).mp hn with rfl | hfound
    · refine ⟨Or.inr rfl, ?_⟩
      by_cases hmade : n ∈ live
      · exact hstays n (Or.inr ⟨n, Or.inl ⟨hmade, rfl⟩, .refl⟩)
      · exact h.not_dies_made hnew hmade
    · exact ⟨Or.inl (hthere n hfound), hstays n hfound⟩

/-- Without a second count nothing is taken along that is found, unless it is the object of the new
share itself. -/
theorem found_of_sole (h : G.Sole (held ++ kept) dropped live) (howner : owner ∈ live)
    (hstays : ¬ G.Dies (held ++ kept) live dropped owner)
    (hmade : made ∈ live → ¬ G.Dies (held ++ kept) live dropped made) {n : ν}
    (hn : Found G kept live owner made n) :
    n ∈ live ∧ ¬ G.Dies (held ++ kept) live dropped n := by
  rcases hn with hlead | ⟨r, ⟨hlive, rfl⟩ | ⟨b, hb, rfl⟩, hlead⟩
  · exact h.not_dies_of_leadsTo howner hstays hlead
  · exact h.not_dies_of_leadsTo hlive (hmade hlive) hlead
  · have hheld : b ∈ held ++ kept := List.mem_append_right _ hb
    exact h.not_dies_of_leadsTo (h.present b (Or.inl hheld)) (h.not_dies (Or.inl hheld)) hlead

end NewShare

end SocialGaming
