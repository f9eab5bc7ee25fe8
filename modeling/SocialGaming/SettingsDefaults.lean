import SocialGaming.SettingsLiterals

/-!
# What the settings parser gives a default

An expression of a kind the parser does not know is read as 0, at any depth and without an error. So
an expression that has one in it is read as the same value as the literal with 0 in its place.

## Main definitions

* `SameValue` — two values in two stores have the same contents
* `Distinguished` — the parser throws, or no other expression of a class is read as the same value

## Main results

* `HasContent.exists_mapLeaves` — an expression with other leaves
* `distinguished_iff` — which expressions are distinguished from literals, and from all expressions
-/

namespace SocialGaming

/-- Two values in two stores have the same contents. -/
def SameValue (h : Heap) (p : VarAddr) (h' : Heap) (p' : VarAddr) : Prop :=
  ∃ t v v', h.Holds p v ∧ Shows h t v ∧ h'.Holds p' v' ∧ Shows h' t v'

/-- The parser throws on the expression with contents `o`, or it makes a value that no expression
of the class `Q` with other contents is also read as. -/
def Distinguished (Q : Content → Prop) (n : SyntaxNode) (o : Option Content) : Prop :=
  (∀ h, ∃ what h', (recursiveExpressionParser n).run h = .error (.thrown what) h') ∨
  ∀ h, ∃ p h', (recursiveExpressionParser n).run h = .ok p h' ∧
    ∀ n' t', HasContent n' (some t') → Q t' → o ≠ some t' → ∀ h₀ p' h₀',
      (recursiveExpressionParser n').run h₀ = .ok p' h₀' → ¬ SameValue h' p h₀' p'

/-! ### An expression with other leaves -/

section

variable {g : Atom → Atom}

theorem lookup_map_snd {α β : Type} (f : α → β) (l : List (String × α)) (k : String) :
    (l.map fun e => (e.1, f e.2)).lookup k = (l.lookup k).map f := by
  induction l with
  | nil => rfl
  | cons e l ih =>
    rw [List.map_cons, List.lookup_cons, List.lookup_cons, ih]
    cases k == e.1 with
    | true => rfl
    | false => rfl

/-- A leaf that is changed can be written down. -/
theorem HasContent.exists_leaf {n : SyntaxNode} {a : Atom}
    (hg : ∀ a, g a = a ∨ ∃ n, HasContent n (some (.leaf (g a))))
    (hn : HasContent n (some (.leaf a))) :
    ∃ n', HasContent n' ((some (.leaf a)).map (Nested.mapLeaves g)) := by
  rw [Option.map_some, Nested.mapLeaves_leaf]
  rcases hg a with ha | ha
  · rw [ha]
    exact ⟨n, hn⟩
  · exact ha

mutual

/-- If the leaves that are changed can be written down, so can the expression. -/
theorem HasContent.exists_mapLeaves
    (hg : ∀ a, g a = a ∨ ∃ n, HasContent n (some (.leaf (g a)))) {n : SyntaxNode}
    {o : Option Content} (hn : HasContent n o) :
    ∃ n', HasContent n' (o.map (Nested.mapLeaves g)) := by
  match hn with
  | @HasContent.number _ c hc ht =>
    have hnumber := HasContent.number hc ht
    rcases hk : stoi c.sourceRange with _ | k
    · rw [hk] at hnumber
      exact ⟨n, hnumber⟩
    · rw [hk] at hnumber
      exact hnumber.exists_leaf hg
  | .string hc ht => exact (HasContent.string hc ht).exists_leaf hg
  | .other hc ht => exact (HasContent.other hc ht).exists_leaf hg
  | .emptyList hc ht he => exact ⟨n, by simpa using HasContent.emptyList hc ht he⟩
  | .list hc ht he hl =>
    obtain ⟨ns, hns⟩ := hl.exists_mapLeaves hg
    have hfun : Nested.mapLeaves g ∘ Nested.list (κ := String)
        = Nested.list ∘ List.map (Nested.mapLeaves g) := funext fun ts => Nested.mapLeaves_list g ts
    rw [Option.map_map, hfun, ← Option.map_map]
    exact ⟨_, hasContent_list hns⟩
  | .map hc ht hm =>
    obtain ⟨ns, hnamed, hns⟩ := hm.exists_mapLeaves hg
    have hfun : (Nested.mapLeaves g ∘ fun es : List (String × Content) =>
          Nested.map fun k => es.reverse.lookup k)
        = (fun es => Nested.map fun k => es.reverse.lookup k)
          ∘ List.map fun e : String × Content => (e.1, e.2.mapLeaves g) := by
      funext es
      simp only [Function.comp_apply, Nested.mapLeaves_map, ← List.map_reverse, lookup_map_snd]
    rw [Option.map_map, hfun, ← Option.map_map]
    exact ⟨_, hasContent_map hns hnamed⟩

/-- The same of the elements of a list. -/
theorem HaveContents.exists_mapLeaves
    (hg : ∀ a, g a = a ∨ ∃ n, HasContent n (some (.leaf (g a)))) {ns : List SyntaxNode}
    {ts : Option (List Content)} (hns : HaveContents ns ts) :
    ∃ ns', HaveContents ns' (ts.map (List.map (Nested.mapLeaves g))) := by
  match hns with
  | .nil => exact ⟨[], .nil⟩
  | .cons hn hns =>
    obtain ⟨n', hn'⟩ := hn.exists_mapLeaves hg
    obtain ⟨ns', hns'⟩ := hns.exists_mapLeaves hg
    rw [Option.map_map₂_distrib fun _ _ => List.map_cons]
    exact ⟨n' :: ns', .cons hn' hns'⟩

/-- The same of the entries of a map. -/
theorem HaveEntries.exists_mapLeaves
    (hg : ∀ a, g a = a ∨ ∃ n, HasContent n (some (.leaf (g a)))) {ns : List SyntaxNode}
    {es : Option (List (String × Content))} (hns : HaveEntries ns es) :
    ∃ ns', (∀ n ∈ ns', n.named = true) ∧
      HaveEntries ns' (es.map (List.map fun e => (e.1, e.2.mapLeaves g))) := by
  match hns with
  | .nil => exact ⟨[], nofun, .nil⟩
  | @HaveEntries.cons _ kn _ _ t es hkey hval hn hns =>
    obtain ⟨n', hn'⟩ := hn.exists_mapLeaves hg
    obtain ⟨ns', hnamed, hns'⟩ := hns.exists_mapLeaves hg
    have hfun : (Option.map₂ (fun t es => (kn.text, t) :: es) t es).map
          (List.map fun e => (e.1, e.2.mapLeaves g))
        = Option.map₂ (fun t es => (kn.text, t) :: es) (t.map (Nested.mapLeaves g))
          (es.map (List.map fun e => (e.1, e.2.mapLeaves g))) :=
      Option.map_map₂_distrib fun _ _ => rfl
    rw [hfun]
    exact ⟨_, List.forall_mem_cons.mpr ⟨rfl, hnamed⟩, hns'.cons_entryNode kn.text hn'⟩

end

end

/-! ### Expressions that are told apart -/

section

variable {Q : Content → Prop} {n : SyntaxNode} {t : Content}

/-- An expression without contents. -/
theorem distinguished_none (hn : HasContent n none) : Distinguished Q n none := by
  refine Or.inl fun h => ?_
  have hreads := recursiveExpressionParser_reads hn h
  rcases hr : (recursiveExpressionParser n).run h with ⟨p, h'⟩ | ⟨e, h'⟩
  · rw [hr] at hreads
    cases hreads
  · rw [hr] at hreads
    cases hreads
    exact ⟨_, h', rfl⟩

/-- What is made of an expression with contents. -/
theorem exists_run_eq_ok (hn : HasContent n (some t)) (h : Heap) :
    ∃ p h' v, (recursiveExpressionParser n).run h = .ok p h' ∧ h'.Holds p v ∧
      Shows h' (t.mapLeaves Atom.read) v := by
  have hreads := recursiveExpressionParser_reads hn h
  rcases hr : (recursiveExpressionParser n).run h with ⟨p, h'⟩ | ⟨e, h'⟩
  · rw [hr] at hreads
    obtain - | ⟨-, hp, hv, -⟩ := hreads
    exact ⟨p, h', _, rfl, hp, hv⟩
  · rw [hr] at hreads
    cases hreads

/-- Two expressions are read as the same value when the parser makes the same of their leaves. -/
theorem sameValue_iff {n' : SyntaxNode} {t' : Content} {h h' h₀ h₀' : Heap} {p p' : VarAddr}
    (hn : HasContent n (some t)) (hn' : HasContent n' (some t'))
    (hp : (recursiveExpressionParser n).run h = .ok p h')
    (hp' : (recursiveExpressionParser n').run h₀ = .ok p' h₀') :
    SameValue h' p h₀' p' ↔ t.mapLeaves Atom.read = t'.mapLeaves Atom.read := by
  obtain ⟨_, _, v, hr, hv, hshows⟩ := exists_run_eq_ok hn h
  obtain ⟨rfl, rfl⟩ := EStateM.Result.ok.inj (hp.symm.trans hr)
  obtain ⟨_, _, v', hr', hv', hshows'⟩ := exists_run_eq_ok hn' h₀
  obtain ⟨rfl, rfl⟩ := EStateM.Result.ok.inj (hp'.symm.trans hr')
  constructor
  · rintro ⟨u, w, w', hw, hu, hw', hu'⟩
    obtain rfl := hv.unique hw
    obtain rfl := hv'.unique hw'
    exact (hshows.unique hu).trans (hshows'.unique hu').symm
  · intro heq
    exact ⟨_, v, v', hv, hshows, hv', heq ▸ hshows'⟩

/-- What tells an expression with contents from those of a class. -/
theorem distinguished_some_iff (hn : HasContent n (some t)) :
    Distinguished Q n (some t) ↔ ∀ n' t', HasContent n' (some t') → Q t' →
      t.mapLeaves Atom.read = t'.mapLeaves Atom.read → t = t' := by
  constructor
  · intro hdist n' t' hn' hQ heq
    by_contra hne
    obtain ⟨p', h₀', -, hr', -⟩ := exists_run_eq_ok hn' {}
    rcases hdist with hthrow | hdist
    · obtain ⟨what, h', hr⟩ := hthrow {}
      obtain ⟨p, h'', -, hok, -⟩ := exists_run_eq_ok hn {}
      rw [hr] at hok
      cases hok
    · obtain ⟨p, h', hr, hdist⟩ := hdist {}
      exact hdist n' t' hn' hQ (fun h => hne (Option.some.inj h)) {} p' h₀' hr'
        ((sameValue_iff hn hn' hr hr').mpr heq)
  · intro hall
    refine Or.inr fun h => ?_
    obtain ⟨p, h', -, hr, -⟩ := exists_run_eq_ok hn h
    refine ⟨p, h', hr, fun n' t' hn' hQ hne h₀ p' h₀' hr' hsame => hne ?_⟩
    exact congrArg some (hall n' t' hn' hQ ((sameValue_iff hn hn' hr hr').mp hsame))

/-- A change of the leaves the parser does not see. -/
theorem mapLeaves_eq_of_distinguished {g : Atom → Atom} (hn : HasContent n (some t))
    (hdist : Distinguished Q n (some t))
    (hg : ∀ a, g a = a ∨ ∃ n, HasContent n (some (.leaf (g a))))
    (hread : ∀ a, (g a).read = a.read) (hQ : Q (t.mapLeaves g)) : t.mapLeaves g = t := by
  obtain ⟨n', hn'⟩ := hn.exists_mapLeaves hg
  refine ((distinguished_some_iff hn).mp hdist n' _ hn' hQ ?_).symm
  rw [Nested.mapLeaves_mapLeaves]
  simp only [hread]

theorem Atom.isLiteral_read (a : Atom) : a.read.IsLiteral := by
  cases a with
  | _ => trivial

/-- A leaf in the image of a tree. -/
theorem isLiteral_mapLeaves_read (t : Content) : Content.IsLiteral (t.mapLeaves Atom.read) := by
  have hself : (t.mapLeaves Atom.read).mapLeaves Atom.read = t.mapLeaves Atom.read := by
    rw [Nested.mapLeaves_mapLeaves]
    simp only [(Atom.isLiteral_read _).read_eq]
  intro a ha
  rw [← Nested.mapLeaves_eq_self_iff.mp hself a ha]
  exact a.isLiteral_read

/-- The number 0 can be written down, so what is read as it can be replaced by it. -/
theorem read_or_exists (a : Atom) :
    a.read = a ∨ ∃ n, HasContent n (some (.leaf a.read)) := by
  cases a with
  | other kind text => exact Or.inr ⟨exprNode "number" ['0'] [], hasContent_number ['0']⟩
  | _ => exact Or.inl rfl

/-- The number 0 is replaced by an expression of another kind. -/
def Atom.unread : Atom → Atom
  | .int n => if n = 0 then .other "boolean" "true" else .int n
  | a => a

theorem Atom.read_unread (a : Atom) : a.unread.read = a.read := by
  cases a with
  | int n =>
    rw [Atom.unread]
    split
    · rename_i hn
      subst hn
      rfl
    · rfl
  | _ => rfl

theorem unread_or_exists (a : Atom) :
    a.unread = a ∨ ∃ n, HasContent n (some (.leaf a.unread)) := by
  cases a with
  | int n =>
    rw [Atom.unread]
    split
    · have hkind : "boolean" ∉ literalKinds := by decide
      exact Or.inr ⟨_, hasContent_other hkind ['t', 'r', 'u', 'e']⟩
    · exact Or.inl rfl
  | _ => exact Or.inl rfl

/-- Only the number 0 is what more than one leaf is read as. -/
theorem eq_of_read_eq {a b : Atom} (hzero : a ≠ .int 0) (hb : b.read = a) : b = a := by
  cases b with
  | other kind text => exact absurd hb.symm hzero
  | _ => exact hb

/-- **Settings take a silent default.** An expression with a number that is no int is reported. Any
other is told apart from every literal with different contents if and only if no expression of an
unknown kind is in its contents, at any depth, and from every expression with different contents if
and only if the number 0 is not in them either. -/
theorem distinguished_iff (n : SyntaxNode) (o : Option Content) (hn : HasContent n o) :
    (Distinguished Content.IsLiteral n o ↔ ∀ t, o = some t → t.IsLiteral) ∧
    (Distinguished (fun _ => True) n o ↔
      ∀ t, o = some t → ∀ a, Nested.IsLeaf a t → a.IsLiteral ∧ a ≠ .int 0) := by
  rcases o with _ | t
  · exact ⟨iff_of_true (distinguished_none hn) nofun, iff_of_true (distinguished_none hn) nofun⟩
  refine ⟨⟨?_, ?_⟩, ?_, ?_⟩
  · rintro hdist _ ⟨⟩ a ha
    have hself := mapLeaves_eq_of_distinguished hn hdist read_or_exists
      (fun a => a.isLiteral_read.read_eq) (isLiteral_mapLeaves_read t)
    rw [← Nested.mapLeaves_eq_self_iff.mp hself a ha]
    exact a.isLiteral_read
  · refine fun hall => (distinguished_some_iff hn).mpr fun n' t' hn' ht' heq => ?_
    rwa [(hall t rfl).mapLeaves_read, ht'.mapLeaves_read] at heq
  · rintro hdist _ ⟨⟩ a ha
    have hread := mapLeaves_eq_of_distinguished hn hdist read_or_exists
      (fun a => a.isLiteral_read.read_eq) trivial
    have hunread := mapLeaves_eq_of_distinguished hn hdist unread_or_exists Atom.read_unread trivial
    refine ⟨?_, ?_⟩
    · rw [← Nested.mapLeaves_eq_self_iff.mp hread a ha]
      exact a.isLiteral_read
    · rintro rfl
      nomatch Nested.mapLeaves_eq_self_iff.mp hunread _ ha
  · refine fun hall => (distinguished_some_iff hn).mpr fun n' t' hn' _ heq => ?_
    have ht : t.IsLiteral := fun a ha => (hall t rfl a ha).1
    rw [ht.mapLeaves_read] at heq
    exact (Nested.eq_of_mapLeaves_eq heq.symm fun a ha b hb =>
      eq_of_read_eq (hall t rfl a ha).2 hb).symm

/-- The list of a string and 7. -/
theorem distinguished_list :
    Distinguished (fun _ => True)
      (listNode [exprNode "quoted_string" ['"', '"'] [], exprNode "number" ['7'] []])
      (some (.list [.leaf (.string "\"\""), .leaf (.int 7)])) := by
  have hcontent := hasContent_list (.cons (hasContent_string ['"', '"'])
    (.cons (hasContent_number ['7']) .nil))
  refine (distinguished_iff _ _ hcontent).2.mpr ?_
  rintro _ ⟨⟩ a (_ | ⟨ht, ha⟩)
  rcases List.mem_pair.mp ht with rfl | rfl
  · cases ha
    exact ⟨trivial, nofun⟩
  · cases ha
    exact ⟨trivial, by decide⟩

/-- The boolean `true` is read as the number 0 is. -/
theorem boolean_not_distinguished :
    HasContent (exprNode "boolean" ['t', 'r', 'u', 'e'] [])
      (some (.leaf (.other "boolean" "true"))) ∧
    HasContent (exprNode "number" ['0'] []) (some (.leaf (.int 0))) ∧
    (∃ p h p' h', (recursiveExpressionParser (exprNode "boolean" ['t', 'r', 'u', 'e'] [])).run {}
        = .ok p h ∧
      (recursiveExpressionParser (exprNode "number" ['0'] [])).run {} = .ok p' h' ∧
      SameValue h p h' p') ∧
    ¬ Distinguished Content.IsLiteral (exprNode "boolean" ['t', 'r', 'u', 'e'] [])
      (some (.leaf (.other "boolean" "true"))) := by
  have hbool : HasContent (exprNode "boolean" ['t', 'r', 'u', 'e'] [])
      (some (.leaf (.other "boolean" "true"))) := hasContent_other (by decide) _
  have hzero : HasContent (exprNode "number" ['0'] []) (some (.leaf (.int 0))) :=
    hasContent_number ['0']
  obtain ⟨p, h, -, hr, -⟩ := exists_run_eq_ok hbool {}
  obtain ⟨p', h', -, hr', -⟩ := exists_run_eq_ok hzero {}
  refine ⟨hbool, hzero, ⟨p, h, p', h', hr, hr', (sameValue_iff hbool hzero hr hr').mpr (by simp)⟩,
    fun hdist => ?_⟩
  have heq := (distinguished_some_iff hbool).mp hdist _ _ hzero
    (fun a ha => by rw [Nested.isLeaf_leaf.mp ha]; trivial) (by simp)
  cases heq

end

end SocialGaming
