import SocialGaming.Library.Outcome
import Mathlib.Data.List.Basic

/-!
# Reading from a stream of tokens

A function that is given an iterator by reference reads the token the iterator is at, moves it on,
and leaves it where its caller goes on reading. What it works on is the list of tokens from the
iterator to the end, so such a function is a `Prog` on lists of tokens. Reading at the end, and
moving beyond it, is undefined.

## Main definitions

* `Prog.current`, `Prog.advance` — `*it` and `it += k`
* `Prog.Consumes` — a program takes exactly these tokens, whatever follows them
* `Prog.operands` — two calls of a program, in either order

## Main results

* `Prog.Consumes.bind`, `Prog.Consumes.operands` — what programs take one after the other
* `Prog.run_advance_eq_ok_iff` — a fixed move takes exactly the tokens whose number it is
-/

namespace SocialGaming.Prog

universe u

variable {ε τ α β : Type u}

/-- The token the iterator is at. -/
def current : Prog ε (List τ) τ := do
  match ← get with
  | token :: _ => return token
  | [] => throw (.undefined .pastEnd)

/-- Move the iterator on. -/
def advance (k : ℕ) : Prog ε (List τ) PUnit := do
  let tokens ← get
  if k ≤ tokens.length then set (tokens.drop k) else throw (.undefined .pastEnd)

@[simp] theorem run_current_cons (token : τ) (rest : List τ) :
    EStateM.run (current : Prog ε (List τ) τ) (token :: rest) = .ok token (token :: rest) := rfl

theorem run_advance (k : ℕ) (tokens : List τ) :
    EStateM.run (advance k : Prog ε (List τ) PUnit) tokens
      = if k ≤ tokens.length then .ok ⟨⟩ (tokens.drop k)
        else .error (.undefined .pastEnd) tokens := by
  rw [advance, EStateM.run_bind, EStateM.run_get]
  by_cases h : k ≤ tokens.length
  · simp [h]
  · simp [h]

@[simp] theorem run_advance_one_cons (token : τ) (rest : List τ) :
    EStateM.run (advance 1 : Prog ε (List τ) PUnit) (token :: rest) = .ok ⟨⟩ rest := by
  rw [run_advance, if_pos (by simp), List.drop_one, List.tail_cons]

/-- **A fixed move takes exactly the tokens whose number it is.** -/
theorem run_advance_eq_ok_iff {k : ℕ} {tokens rest : List τ} :
    EStateM.run (advance k : Prog ε (List τ) PUnit) (tokens ++ rest) = .ok ⟨⟩ rest
      ↔ tokens.length = k := by
  rw [run_advance]
  constructor
  · intro h
    by_cases hk : k ≤ (tokens ++ rest).length
    · rw [if_pos hk] at h
      have hdrop : (tokens ++ rest).drop k = rest := (EStateM.Result.ok.inj h).2
      have hlen := congrArg List.length hdrop
      rw [List.length_drop, List.length_append] at hlen
      rw [List.length_append] at hk
      omega
    · rw [if_neg hk] at h
      cases h
  · rintro rfl
    rw [if_pos (by simp), List.drop_left]

/-! ### What a program takes -/

/-- The program returns `a` and takes exactly `tokens`, whatever follows them among `K`. -/
def Consumes (x : Prog ε (List τ) α) (K : List τ → Prop) (tokens : List τ) (a : α) : Prop :=
  ∀ rest, K rest → x.run (tokens ++ rest) = .ok a rest

variable {K L : List τ → Prop} {x : Prog ε (List τ) α} {tokens tokens' : List τ} {a : α} {b : β}

theorem consumes_pure (a : α) : Consumes (pure a : Prog ε (List τ) α) K [] a :=
  fun rest _ => EStateM.run_pure a rest

/-- **One after the other.** What the second takes has to be among what may follow the first. -/
theorem Consumes.bind {f : α → Prog ε (List τ) β} (hx : Consumes x K tokens a)
    (hf : Consumes (f a) L tokens' b) (hK : ∀ rest, L rest → K (tokens' ++ rest)) :
    Consumes (x >>= f) L (tokens ++ tokens') b := by
  intro rest hrest
  rw [List.append_assoc, EStateM.run_bind, hx _ (hK rest hrest)]
  exact hf rest hrest

/-- A program that takes nothing more may follow. -/
theorem Consumes.bind_nil {f : α → Prog ε (List τ) β} (hx : Consumes x K tokens a)
    (hf : Consumes (f a) K [] b) : Consumes (x >>= f) K tokens b := by
  have h := hx.bind hf fun rest hrest => hrest
  rwa [List.append_nil] at h

/-- Moving on by one takes one token. -/
theorem consumes_advance_one (token : τ) :
    Consumes (advance 1 : Prog ε (List τ) PUnit) K [token] ⟨⟩ :=
  fun rest _ => run_advance_one_cons token rest

/-! ### Operands -/

/-- Two calls of a program, the right operand's first or the left one's: the operands, left and
right. -/
def operands (x : Prog ε (List τ) α) (rightFirst : List τ → Bool) : Prog ε (List τ) (α × α) := do
  let swap := rightFirst (← get)
  let first ← x
  let second ← x
  return if swap then (second, first) else (first, second)

/-- The operands are the two values, in one order or the other. -/
theorem Consumes.operands {a a' : α} (rightFirst : List τ → Bool) (hx : Consumes x K tokens a)
    (hx' : Consumes x L tokens' a') (hK : ∀ rest, L rest → K (tokens' ++ rest)) :
    ∀ rest, L rest → ∃ swapped : Bool,
      (Prog.operands x rightFirst).run (tokens ++ tokens' ++ rest)
        = .ok (if swapped then (a', a) else (a, a')) rest := by
  intro rest hrest
  refine ⟨rightFirst (tokens ++ tokens' ++ rest), ?_⟩
  have hcalls : Consumes (do
      let first ← x
      let second ← x
      return if rightFirst (tokens ++ tokens' ++ rest) then (second, first) else (first, second))
      L (tokens ++ tokens')
      (if rightFirst (tokens ++ tokens' ++ rest) then (a', a) else (a, a')) :=
    hx.bind (hx'.bind_nil (consumes_pure _)) hK
  rw [Prog.operands, EStateM.run_bind, EStateM.run_get]
  exact hcalls rest hrest

/-- What is done with the operands does not depend on the order of the calls if it does not depend
on the order of the operands. -/
theorem Consumes.operands_bind {a a' : α} {f : α × α → Prog ε (List τ) β}
    (rightFirst : List τ → Bool) (hx : Consumes x K tokens a) (hx' : Consumes x L tokens' a')
    (hK : ∀ rest, L rest → K (tokens' ++ rest)) (hf : Consumes (f (a, a')) L [] b)
    (hf' : Consumes (f (a', a)) L [] b) :
    Consumes (Prog.operands x rightFirst >>= f) L (tokens ++ tokens') b := by
  intro rest hrest
  obtain ⟨swapped, hrun⟩ := hx.operands rightFirst hx' hK rest hrest
  rw [EStateM.run_bind, hrun]
  cases swapped with
  | false => exact hf rest hrest
  | true => exact hf' rest hrest

end SocialGaming.Prog
